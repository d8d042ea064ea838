import Pscdrv.Schemes.Linked
import Pscdrv.Schemes.Run

/-! # The client list of the target server

    `psc_run` accepts clients and starts one thread for each; `handle_client`, run by that thread,
    takes its client out of the list when the connection ends. The list is linked through the
    clients, in memory that is allocated and freed, and each section under `sendguard` is one step.

        client_head ──▶ newest ──next──▶ … ──next──▶ oldest ──▶ NULL

    The fields `linked` and `stage` of a client are not in the source: they tell whether the locked
    section of `psc_run` that links it has run, and where its thread is in `handle_client`. `calls`
    records what was done to the sockets. -/

namespace Pscdrv.Target

open Run

/-- `PSC_MAX_CLIENTS` -/
def pscMaxClients : UInt32 := 4

/-- Where the thread of a client is in `handle_client`. -/
inductive Stage where
  /-- in the loop around `psc_recvmsg` -/
  | receiving
  /-- behind the locked section that patches the client out of the list -/
  | removed
  /-- behind `close(C->sock)` -/
  | closed
  deriving DecidableEq

/-- `psc_client`; `active` is the flag that `psc_send` looks at. -/
structure PscClient where
  prev : Option ℕ
  next : Option ℕ
  active : Bool
  sock : ℕ
  linked : Bool
  stage : Stage

/-- A call on a socket. -/
inductive SockCall where
  | accept (sock : ℕ)
  | send (sock : ℕ)
  | recv (sock : ℕ)
  | close (sock : ℕ)
  deriving DecidableEq

/-- `psc_key` and the memory that its clients live in. `starting` is the client whose thread
    `psc_run` has started and that it goes on to link. -/
structure PscKey where
  clientCount : UInt32
  clientHead : Option ℕ
  heap : ℕ → Option PscClient
  starting : Option ℕ
  calls : List SockCall

def PscKey.init : PscKey := ⟨0, none, fun _ => none, none, []⟩

/-- Change the client at `a`; `none` when there is no memory allocated there. -/
def modify (s : PscKey) (a : ℕ) (f : PscClient → PscClient) : Option PscKey :=
  (s.heap a).map fun c => { s with heap := fun b => if b = a then some (f c) else s.heap b }

/-- What the environment answers to `accept()`, and while a client is set up. -/
inductive AcceptEnv where
  | error
  /-- `calloc()` of the client or `malloc()` of its buffer fails -/
  | noMemory (sock : ℕ)
  /-- `sys_thread_new()` fails -/
  | noThread (sock : ℕ)
  /-- the client is allocated at `a`, and its thread runs -/
  | client (sock a : ℕ)

/-- The descriptor that a new connection gets. -/
def AcceptEnv.sock? : AcceptEnv → Option ℕ
  | .error => none
  | .noMemory sock | .noThread sock | .client sock _ => some sock

/-- The loop of `psc_run` up to the point where a new client gets linked. -/
def accept (s : PscKey) (env : AcceptEnv) : Option PscKey :=
  if s.starting.isSome then none
  else match env with
  | .error => some s
  | .noMemory sock => some { s with calls := s.calls ++ [.accept sock, .close sock] }
  | .noThread sock => some { s with calls := s.calls ++ [.accept sock, .close sock] }
  | .client sock a =>
    if pscMaxClients ≤ s.clientCount then
      some { s with calls := s.calls ++ [.accept sock, .close sock] }
    else if (s.heap a).isSome then none
    else some { s with
      -- calloc() leaves the links and `active` 0
      heap := fun b => if b = a then some ⟨none, none, false, sock, false, .receiving⟩ else s.heap b
      starting := some a
      calls := s.calls ++ [.accept sock] }

/-- The locked section of `psc_run`. -/
def link (s : PscKey) : Option PscKey :=
  match s.starting with
  | none => none
  | some a =>
    (modify s a fun c => { c with next := s.clientHead, active := true, linked := true }).map
      fun s => { s with
        clientHead := some a, clientCount := s.clientCount + 1, starting := none }

/-- The client at `a`, if its thread is at `stage`. -/
def clientAt (s : PscKey) (a : ℕ) (stage : Stage) : Option PscClient :=
  (s.heap a).filter fun c => c.stage = stage

/-- `if(C->next) C->next->prev = C->prev;` -/
def unlinkNext (s : PscKey) (c : PscClient) : Option PscKey :=
  match c.next with
  | some n => modify s n fun d => { d with prev := c.prev }
  | none => some s

/-- `if(C->prev) C->prev->next = C->next; else C->PSC->client_head = C->next;` -/
def unlinkPrev (s : PscKey) (c : PscClient) : Option PscKey :=
  match c.prev with
  | some p => modify s p fun d => { d with next := c.next }
  | none => some { s with clientHead := c.next }

/-- The first locked section of `handle_client`: patch `a` out of the list. -/
def remove (s : PscKey) (a : ℕ) : Option PscKey :=
  (clientAt s a .receiving).bind fun c =>
    (unlinkNext s c).bind fun s =>
      (unlinkPrev s c).bind fun s =>
        modify { s with clientCount := s.clientCount - 1 } a fun d => { d with stage := .removed }

/-- The second locked section of `handle_client`. -/
def closeSock (s : PscKey) (a : ℕ) : Option PscKey :=
  (clientAt s a .removed).bind fun c =>
    modify { s with calls := s.calls ++ [.close c.sock] } a fun d => { d with stage := .closed }

/-- The end of `handle_client`. -/
def free (s : PscKey) (a : ℕ) : Option PscKey :=
  (clientAt s a .closed).map fun _ => { s with heap := fun b => if b = a then none else s.heap b }

/-- `psc_recvmsg` in the loop of `handle_client`. -/
def recvMsg (s : PscKey) (a : ℕ) : Option PscKey :=
  (clientAt s a .receiving).map fun c => { s with calls := s.calls ++ [.recv c.sock] }

/-- Send to client `c` at `a`; `ok` tells whether `psc_sendmsg` succeeds. -/
def sendMsg (s : PscKey) (a : ℕ) (c : PscClient) (ok : Bool) : Option PscKey :=
  if ok then some { s with calls := s.calls ++ [.send c.sock] }
  else modify { s with calls := s.calls ++ [.send c.sock, .close c.sock] } a fun d =>
    { d with active := false }

/-- `psc_send_one` -/
def pscSendOne (s : PscKey) (a : ℕ) (ok : Bool) : Option PscKey :=
  (s.heap a).bind fun c => sendMsg s a c ok

/-- `C->next` -/
def nextOf (s : PscKey) (a : ℕ) : Option (Option ℕ) := (s.heap a).map PscClient.next

/-- The loop of `psc_send` over the clients of the list; sending does not change the links. -/
def sendAll (s : PscKey) (ok : ℕ → Bool) : List ℕ → Option PscKey
  | [] => some s
  | a :: l => (s.heap a).bind fun c =>
    if c.active then (sendMsg s a c (ok a)).bind fun s => sendAll s ok l else sendAll s ok l

/-- `psc_send`, over at most `fuel` clients. -/
def pscSend (s : PscKey) (fuel : ℕ) (ok : ℕ → Bool) : Option PscKey :=
  (follow (nextOf s) fuel s.clientHead).bind (sendAll s ok)

inductive Op where
  | accept (env : AcceptEnv)
  | link
  | recvMsg (a : ℕ)
  | remove (a : ℕ)
  | closeSock (a : ℕ)
  | free (a : ℕ)
  | pscSend (fuel : ℕ) (ok : ℕ → Bool)
  | pscSendOne (a : ℕ) (ok : Bool)

/-- `none` when the step is not possible, or reads memory that is not allocated. -/
def step (s : PscKey) : Op → Option PscKey
  | .accept env => accept s env
  | .link => link s
  | .recvMsg a => recvMsg s a
  | .remove a => remove s a
  | .closeSock a => closeSock s a
  | .free a => free s a
  | .pscSend fuel ok => pscSend s fuel ok
  | .pscSendOne a ok => pscSendOne s a ok

end Pscdrv.Target
