import Rtai.Sem

/-! # msg.c: short intertask messages

    `msg_queue.task` of a task is the task itself when it is in no messaging
    call, the destination while it sends, and the sender it accepts (`null`
    for any) and then the one it got while it receives.  `ret_queue.task` is
    `RTP_HIGERR` while a receive has got nothing. -/

namespace RtaiMsg

open RtaiKernel RtaiSchedCore RtaiPrioInher RtaiTaskApi

variable {T S : Type} [DecidableEq T] [DecidableEq S] [Fintype T] [Fintype S]

/-! ## What the calls share -/

/-- The receiver waits for a message and takes one of this sender. -/
def accepts (k : Kernel T S) (c dest : T) : Bool :=
  .receive ∈ k.state dest && (k.msgTask dest = .null || k.msgTask dest = .task c)

/-- The message is put into the waiting receiver.  The result says whether
    that made it ready. -/
def deliver (k : Kernel T S) (c dest : T) (msg : Word) : Option (Kernel T S × Bool) :=
  let k := { k with
    msg := Function.update k.msg dest msg
    msgTask := Function.update k.msgTask dest (.task c)
    retTask := Function.update k.retTask dest .null }
  let k := remTimedTask k dest
  if k.state dest = {.ready} then some (k, false)
  else
    let k := { k with
      state := Function.update k.state dest (k.state dest \ {.receive, .delayed}) }
    if k.state dest = {.ready} then do return (← enqReadyTask k dest, true)
    else some (k, false)

/-- `msg_not_sent` -/
def msgNotSent (k : Kernel T S) (c dest : T) : Option (Outcome T S) :=
  if k.blockedOn c ≠ .objrem then do
    let b := k.blockedOn c
    let k ← setTaskPrioFromResq k dest
    let k := dequeueBlocked k c
    done { k with msgTask := Function.update k.msgTask c (.task c) }
      (if b.isPtr then .timout else .unblkd)
  else
    done { k with msgTask := Function.update k.msgTask c (.task c) } .objrem

/-! ## Sends -/

/-- The end of `rt_send`. -/
def rtSendTail (k : Kernel T S) (c dest : T) : Option (Outcome T S) :=
  if k.msgTask c ≠ .task c then msgNotSent k c dest else done k (.sent dest)

/-- `rt_send`. -/
def rtSend (k : Kernel T S) (c dest : T) (msg : Word) : Option (Outcome T S) :=
  if !k.magic dest then done k .objinv
  else if accepts k c dest then do
    let (k, ready) ← deliver k c dest msg
    if ready then stay k c (.send dest) else rtSendTail k c dest
  else do
    let k := { k with
      msg := Function.update k.msg c msg
      msgTask := Function.update k.msgTask c (.task dest) }
    let k ← enqueueBlocked k c (.msg dest) 0
    let k := { k with
      state := Function.update k.state c (k.state c ∪ {.send}) }
    let k ← passPrio k (.task dest) c
    let k := remReadyCurrent k c
    stay k c (.send dest)

/-- The end of `rt_send_if`. -/
def rtSendIfTail (k : Kernel T S) (c dest : T) : Option (Outcome T S) :=
  if k.msgTask c ≠ .task c then
    done { k with msgTask := Function.update k.msgTask c (.task c) } .none
  else done k (.sent dest)

/-- `rt_send_if`: only to a task that waits. -/
def rtSendIf (k : Kernel T S) (c dest : T) (msg : Word) : Option (Outcome T S) :=
  if !k.magic dest then done k .objinv
  else if accepts k c dest then do
    let (k, ready) ← deliver k c dest msg
    if ready then stay k c (.sendIf dest) else rtSendIfTail k c dest
  else done k .none

/-- `rt_send_until`. -/
def rtSendUntil (k : Kernel T S) (c dest : T) (msg : Word) (time : Int) :
    Option (Outcome T S) :=
  if !k.magic dest then done k .objinv
  else if accepts k c dest then do
    let (k, ready) ← deliver k c dest msg
    if ready then stay k c (.send dest) else rtSendTail k c dest
  else
    let k := { k with
      msgTask := Function.update k.msgTask c (.task dest)
      resumeTime := Function.update k.resumeTime c time }
    if time > k.timeH then do
      let k := { k with msg := Function.update k.msg c msg }
      let k ← enqueueBlocked k c (.msg dest) 0
      let k := { k with
        state := Function.update k.state c (k.state c ∪ {.send, .delayed}) }
      let k ← passPrio k (.task dest) c
      let k := remReadyCurrent k c
      let k ← enqTimedTask k c
      stay k c (.send dest)
    else
      -- the time is over: the task leaves a queue it has not entered
      rtSendTail { k with queue := k.queue.selfLink (.elem c) } c dest

/-! ## Remote procedure calls -/

/-- The end of `rt_rpc`. -/
def rtRpcTail (k : Kernel T S) (c dest : T) : Option (Outcome T S) :=
  if k.msgTask c = .task c then done k (.rpced dest (k.msg c))
  else msgNotSent k c dest

/-- The receiver gets the message and the caller waits in its `ret_queue`. -/
def rpcDeliver (k : Kernel T S) (c dest : T) (toDo : Word)
    (flags : TaskState) : Option (Kernel T S) := do
  let k := { k with msg := Function.update k.msg c toDo }
  let (k, _) ← deliver k c dest toDo
  let k ← enqueueBlocked k c (.ret dest) 0
  return { k with
    state := Function.update k.state c (k.state c ∪ insert .ret flags) }

/-- The caller waits in the receiver's `msg_queue`. -/
def rpcQueue (k : Kernel T S) (c dest : T) (toDo : Word)
    (flags : TaskState) : Option (Kernel T S) := do
  let k := { k with msg := Function.update k.msg c toDo }
  let k ← enqueueBlocked k c (.msg dest) 0
  return { k with
    state := Function.update k.state c (k.state c ∪ insert .rpc flags) }

/-- From `pass_prio` to the end of the first section. -/
def rpcBlock (k : Kernel T S) (c dest : T) : Option (Kernel T S) := do
  let k ← passPrio k (.task dest) c
  let k := remReadyCurrent k c
  return { k with msgTask := Function.update k.msgTask c (.task dest) }

/-- `rt_rpc`: a message, then its return. -/
def rtRpc (k : Kernel T S) (c dest : T) (toDo : Word) : Option (Outcome T S) :=
  if !k.magic dest then done k .objinv
  else do
    let k ← if accepts k c dest then rpcDeliver k c dest toDo ∅
      else rpcQueue k c dest toDo ∅
    let k ← rpcBlock k c dest
    stay k c (.rpc dest)

/-- `rt_rpc_if`: only to a task that waits. -/
def rtRpcIf (k : Kernel T S) (c dest : T) (toDo : Word) : Option (Outcome T S) :=
  if !k.magic dest then done k .objinv
  else if accepts k c dest then do
    let k ← rpcDeliver k c dest toDo ∅
    let k ← rpcBlock k c dest
    stay k c (.rpc dest)
  else done k .none

/-- `rt_rpc_until`. -/
def rtRpcUntil (k : Kernel T S) (c dest : T) (toDo : Word) (time : Int) :
    Option (Outcome T S) :=
  if !k.magic dest then done k .objinv
  else
    let k := { k with resumeTime := Function.update k.resumeTime c time }
    if time ≤ k.timeH then done k .none
    else do
      let k ← if accepts k c dest then rpcDeliver k c dest toDo {.delayed}
        else rpcQueue k c dest toDo {.delayed}
      let k ← rpcBlock k c dest
      let k ← enqTimedTask k c
      stay k c (.rpc dest)

/-- `rt_return`: the caller goes on. -/
def rtReturn (k : Kernel T S) (c dest : T) (result : Word) : Option (Outcome T S) :=
  if !k.magic dest then done k .objinv
  else if .ret ∈ k.state dest ∧ k.msgTask dest = .task c then do
    let k := dequeueBlocked k dest
    let k ← setTaskPrioFromResq k c
    let k := { k with
      msg := Function.update k.msg dest result
      msgTask := Function.update k.msgTask dest (.task dest) }
    let k := remTimedTask k dest
    if k.state dest = {.ready} then done k (.returned dest)
    else
      let k := { k with
        state := Function.update k.state dest (k.state dest \ {.ret, .delayed}) }
      if k.state dest = {.ready} then do
        done (← enqReadyTask k dest) (.returned dest)
      else done k (.returned dest)
  else done k .none

/-! ## Receives -/

/-- The task whose message is asked for: the given one, or the one at the
    head of the message queue. -/
def receiveSource (k : Kernel T S) (c : T) (src : Option T) : Option T :=
  match src with
  | some t => some t
  | none =>
    match queueTask k (k.queue.next (.head (.msg c))) with
    | .task t => some t
    | _ => none

/-- That task has a message for the caller. -/
def hasMessage (k : Kernel T S) (c t : T) : Bool :=
  (.send ∈ k.state t || .rpc ∈ k.state t) && k.msgTask t = .task c

/-- The message of a queued sender is taken.  A plain sender is released, and
    the result says whether that made it ready; a caller of an rpc goes on
    waiting in the `ret_queue`. -/
def takeMessage (k : Kernel T S) (c t : T) : Option (Kernel T S × Bool) :=
  let k := remTimedTask (dequeueBlocked k t) t
  let k := { k with msgTask := Function.update k.msgTask c (.task t) }
  if .send ∈ k.state t then do
    let k := { k with msgTask := Function.update k.msgTask t (.task t) }
    let k ← setTaskPrioFromResq k c
    if k.state t = {.ready} then return (k, false)
    else
      let k := { k with
        state := Function.update k.state t (k.state t \ {.send, .delayed}) }
      if k.state t = {.ready} then return (← enqReadyTask k t, true)
      else return (k, false)
  else if .rpc ∈ k.state t then do
    let k ← enqueueBlocked k t (.ret c) 0
    return ({ k with
      state := Function.update k.state t ((k.state t \ {.rpc, .delayed}) ∪ {.ret}) }, false)
  else some (k, false)

/-- The end of a receive that has got a message.  One of a proxy is answered
    at once, in a section of its own. -/
def receiveResult (k : Kernel T S) (c : T) (got : Word) (src : TaskPtr T) :
    Option (Outcome T S) :=
  match src with
  | .task t =>
    if k.receiver t = some c then stay k c (.proxyReturn t got)
    else done k (.received t got)
  | _ => done k .none

/-- `msg_not_received`, or the sender that has been stored. -/
def receiveEnd (k : Kernel T S) (c : T) (got : Word) : Option (Outcome T S) :=
  if k.retTask c ≠ .null then
    done { k with
      retTask := Function.update k.retTask c .null
      msgTask := Function.update k.msgTask c (.task c) }
      (if k.blockedOn c ≠ .unblkd then .timout else .unblkd)
  else
    receiveResult { k with msgTask := Function.update k.msgTask c (.task c) }
      c got (k.msgTask c)

/-- The end of `rt_receive`. -/
def rtReceiveTail (k : Kernel T S) (c : T) (got : Option Word) : Option (Outcome T S) :=
  receiveEnd k c (got.getD (k.msg c))

/-- `rt_receive`. -/
def rtReceive (k : Kernel T S) (c : T) (src : Option T) : Option (Outcome T S) :=
  if src.any (fun t => !k.magic t) then done k .objinv
  else do
    let t ← receiveSource k c src
    if hasMessage k c t then
      let got := k.msg t
      let (k, ready) ← takeMessage k c t
      if ready then stay k c (.receive (some got)) else receiveEnd k c got
    else
      let k := { k with
        retTask := Function.update k.retTask c .higerr
        state := Function.update k.state c (k.state c ∪ {.receive}) }
      let k := remReadyCurrent k c
      let k := { k with
        msgTask := Function.update k.msgTask c (if t ≠ c then .task t else .null) }
      stay k c (.receive none)

/-- The end of `rt_receive_if`. -/
def rtReceiveIfTail (k : Kernel T S) (c : T) (got : Word) : Option (Outcome T S) :=
  if k.retTask c ≠ .null then
    done { k with
      retTask := Function.update k.retTask c .null
      msgTask := Function.update k.msgTask c (.task c) } .none
  else
    receiveResult { k with msgTask := Function.update k.msgTask c (.task c) }
      c got (k.msgTask c)

/-- `rt_receive_if`. -/
def rtReceiveIf (k : Kernel T S) (c : T) (src : Option T) : Option (Outcome T S) :=
  if src.any (fun t => !k.magic t) then done k .objinv
  else do
    let t ← receiveSource k c src
    if hasMessage k c t then
      let got := k.msg t
      let (k, ready) ← takeMessage k c t
      if ready then stay k c (.receiveIf got) else rtReceiveIfTail k c got
    else done k .none

/-- `rt_receive_until`. -/
def rtReceiveUntil (k : Kernel T S) (c : T) (src : Option T) (time : Int) :
    Option (Outcome T S) :=
  if src.any (fun t => !k.magic t) then done k .objinv
  else do
    let t ← receiveSource k c src
    if hasMessage k c t then
      let got := k.msg t
      let (k, ready) ← takeMessage k c t
      if ready then stay k c (.receive (some got)) else receiveEnd k c got
    else
      let k := { k with
        retTask := Function.update k.retTask c .higerr
        resumeTime := Function.update k.resumeTime c time }
      if time > k.timeH then
        let k := { k with
          state := Function.update k.state c (k.state c ∪ {.receive, .delayed}) }
        let k := remReadyCurrent k c
        let k := { k with
          msgTask := Function.update k.msgTask c (if t ≠ c then .task t else .null) }
        let k ← enqTimedTask k c
        stay k c (.receive none)
      else receiveEnd k c (k.msg c)

/-- The `rt_return(task, 0)` to a proxy. -/
def proxyReturnTail (k : Kernel T S) (c src : T) (got : Word) :
    Option (Outcome T S) := do
  let (k, _) ← rtReturn k c src 0
  done k (.received src got)

end RtaiMsg
