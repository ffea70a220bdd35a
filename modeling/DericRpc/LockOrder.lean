import DericRpc.Lib.Locks

/-! The locking of all operations: which mutexes each of them takes and gives back on each of
its paths, in any number of services and clients, and the order they keep to. -/
namespace DericRpc.LockOrder
open Lts Locks

/-- RpcServiceImpl's mutexes belong to a service, RpcClientEntry's to a client. -/
inductive Mutex where
  | initMutex
  | instanceMutex (s : Nat)
  | clientsMutex (s : Nat)
  | ioMembersMutex
  | ioInstanceMutex
  | functionsMutex (s : Nat)
  | waitingLock (c : Nat)
  deriving DecidableEq

inductive Op where
  -- DericProcess
  | processInit
  | processDeinit
  -- IoModule
  | ioInit
  | ioDeinit
  | ioStart
  | ioStop
  | wakeupModule
  | addIoMember
  | removeIoMember
  | waitThreadFunc
  -- TcpIoServerEntry and TcpIoConnection, the members of the table
  | listenerOnReadAvailable (s : Nat)
  | listenerOnIoError (s : Nat)
  | acceptedOnReadAvailable (s : Nat)
  | acceptedOnIoError (s : Nat)
  | connectedOnReadAvailable (c : Nat)
  | connectedOnIoError (c : Nat)
  -- TcpIoServer
  | serverInit (s : Nat)
  | serverDeInit (s : Nat)
  | serverStart (s : Nat)
  | serverStop (s : Nat)
  | onConnectRequest (s : Nat)
  | serverOnIoError (s : Nat)
  -- RpcServiceImpl
  | serviceInit (s : Nat)
  | serviceDeInit (s : Nat)
  | serviceStart (s : Nat)
  | serviceStop (s : Nat)
  | registerMethod (s : Nat)
  | unregisterMethod (s : Nat)
  | postEvent (s : Nat)
  | createIoConnectionClient (s : Nat)
  | removeIoConnectionClient (s : Nat)
  | serviceHandleData (s : Nat)
  | handleCommand (s : Nat)
  -- RpcServiceClientEntry
  | entryHandleEvent (s : Nat)
  | entryHandleData (s : Nat)
  | entryStart (s : Nat)
  | entryStop (s : Nat)
  -- RpcClientImpl
  | implConnect (c : Nat)
  | implDisconnect (c : Nat)
  | implHandleEvent (c : Nat)
  | implHandleData (c : Nat)
  -- RpcClientEntry
  | clientInit (c : Nat)
  | clientDeinit (c : Nat)
  | clientConnect (c : Nat)
  | clientDisconnect (c : Nat)
  | serviceMessageCallback (c : Nat)
  | invoke (c : Nat)
  | invokeWithResultSync (c : Nat)
  | waitForResult (c : Nat)
  | addResultWaitingItem (c : Nat)
  | removeResultWaitingItem (c : Nat)

open Code Mutex Op

/-- What waitThreadFunc does with a member that has an event. -/
def memberEvent : Code Mutex Op :=
  choice
    (pick fun s => choice (call (listenerOnReadAvailable s)) (call (listenerOnIoError s)))
    (choice
      (pick fun s => choice (call (acceptedOnReadAvailable s)) (call (acceptedOnIoError s)))
      (pick fun c => choice (call (connectedOnReadAvailable c)) (call (connectedOnIoError c))))

def body : Op → Code Mutex Op
  | processInit =>
    locked initMutex (opt (all [call ioInit, opt (all [call ioStart, opt (call ioDeinit)])]))
  | processDeinit => locked initMutex (opt (all [call ioStop, opt (call ioDeinit)]))
  | ioInit | ioDeinit | ioStart | ioStop | wakeupModule => locked ioInstanceMutex skip
  -- the fd is there already: the break skips the unlock
  | addIoMember => opt (choice (leak ioMembersMutex)
      (all [locked ioMembersMutex skip, call wakeupModule]))
  -- the fd is not there: the break skips the unlock
  | removeIoMember => opt (choice (leak ioMembersMutex) (locked ioMembersMutex skip))
  | waitThreadFunc =>
    all [locked ioInstanceMutex skip,
      loop (all [loop (opt (all [locked ioMembersMutex skip, opt memberEvent])),
        loop (locked ioMembersMutex skip)]),
      locked ioInstanceMutex skip]
  | listenerOnReadAvailable s => opt (call (onConnectRequest s))
  | listenerOnIoError s => opt (call (serverOnIoError s))
  | acceptedOnReadAvailable s =>
    opt (choice (call (entryHandleEvent s)) (call (entryHandleData s)))
  | acceptedOnIoError s => opt (call (entryHandleEvent s))
  | connectedOnReadAvailable c =>
    opt (choice (call (implHandleEvent c)) (call (implHandleData c)))
  | connectedOnIoError c => opt (call (implHandleEvent c))
  | serverInit _ => skip
  | serverDeInit s => opt (call (serverStop s))
  | serverStart _ => opt (call addIoMember)
  | serverStop _ => opt (call removeIoMember)
  | onConnectRequest s =>
    opt (all [call (createIoConnectionClient s),
      opt (all [call (entryStart s), opt (call (removeIoConnectionClient s))])])
  | serverOnIoError s => call (serverStop s)
  | serviceInit s => locked (instanceMutex s) (opt (call (serverInit s)))
  | serviceDeInit s => locked (instanceMutex s) (opt (call (serverDeInit s)))
  | serviceStart s => locked (instanceMutex s) (opt (call (serverStart s)))
  | serviceStop s =>
    locked (instanceMutex s)
      (opt (all [locked (clientsMutex s) (loop (call (entryStop s))), call (serverStop s)]))
  | registerMethod s | unregisterMethod s => locked (functionsMutex s) skip
  | postEvent _ => skip
  | createIoConnectionClient s | removeIoConnectionClient s => locked (clientsMutex s) skip
  | serviceHandleData s =>
    opt (all [locked (instanceMutex s) skip, opt (call (handleCommand s))])
  | handleCommand s => all [locked (functionsMutex s) skip, opt user]
  | entryHandleEvent s => all [call (entryStop s), opt (call (removeIoConnectionClient s))]
  | entryHandleData s => opt (call (serviceHandleData s))
  | entryStart _ => opt (call addIoMember)
  | entryStop _ => opt (call removeIoMember)
  | implConnect _ => opt (call addIoMember)
  | implDisconnect _ | implHandleEvent _ => skip
  | implHandleData c => opt (call (serviceMessageCallback c))
  | clientInit _ => skip
  | clientDeinit c => locked (waitingLock c) skip
  | clientConnect c => opt (call (implConnect c))
  | clientDisconnect c => opt (call (implDisconnect c))
  | serviceMessageCallback c => opt (locked (waitingLock c) skip)
  | invoke _ => skip
  | invokeWithResultSync c => opt (call (waitForResult c))
  | waitForResult c =>
    all [call (addResultWaitingItem c),
      opt (all [locked (waitingLock c) (wait (waitingLock c)),
        call (removeResultWaitingItem c)])]
  | addResultWaitingItem c | removeResultWaitingItem c => locked (waitingLock c) skip

def rank : Mutex → Nat
  | initMutex => 0
  | instanceMutex _ => 1
  | clientsMutex _ => 2
  | ioMembersMutex => 3
  | ioInstanceMutex => 4
  | functionsMutex _ => 5
  | waitingLock _ => 6

/-- The lowest rank that an operation locks, also in what it calls; user functions may lock
anything. -/
def level : Op → Nat
  | processInit | processDeinit | waitThreadFunc | acceptedOnReadAvailable _
  | serviceHandleData _ | handleCommand _ | entryHandleData _ => 0
  | serviceInit _ | serviceDeInit _ | serviceStart _ | serviceStop _ => 1
  | listenerOnReadAvailable _ | acceptedOnIoError _ | onConnectRequest _
  | createIoConnectionClient _ | removeIoConnectionClient _ | entryHandleEvent _ => 2
  | addIoMember | removeIoMember | listenerOnIoError _ | serverDeInit _ | serverStart _
  | serverStop _ | serverOnIoError _ | entryStart _ | entryStop _ | implConnect _
  | clientConnect _ => 3
  | ioInit | ioDeinit | ioStart | ioStop | wakeupModule => 4
  | registerMethod _ | unregisterMethod _ => 5
  | _ => 6

theorem body_ordered (o : Op) : (body o).Ordered rank level (level o) none := by
  cases o <;> simp [body, level, rank, Ordered, all, opt, memberEvent]

def discipline : Discipline Mutex Op where
  body := body
  rank := rank
  height := 7
  rank_lt := fun m => by cases m <;> simp [rank]
  level := level
  ordered := body_ordered

/-- Any number of threads in any operations, user functions and IO thread included: while no
early exit of addIoMember or removeIoMember is taken, no threads wait for each other. -/
theorem threads_deadlock_free {ms : List (Move (State Mutex Op) (Nat × Choice Op))}
    {s : State Mutex Op} (h : Path (step body) start ms s)
    (hearly : ∀ m ∈ ms, ¬Leaks m.pre m.act.1) (W : Nat → Prop) : ¬Deadlocked s W :=
  discipline.deadlock_free h hearly W

/-- One thread has taken IoModule's mutex in init, another is at its lock in deinit. -/
theorem threads_deadlock_free_contended : ∃ ms s, Path (step body) start ms s ∧
    s.owner ioInstanceMutex = some 0 ∧ (s.threads 1).WaitsFor ioInstanceMutex ∧
    ∀ W, ¬Deadlocked s W := by
  let th (k : List (Frame Mutex Op)) : Thread Mutex Op := ⟨.running, k ++ [.code .user]⟩
  let s0 : State Mutex Op := start
  let s1 := { s0 with threads := Function.update s0.threads 0 (th [.code (call ioInit)]) }
  let s2 := { s1 with
    threads := Function.update s1.threads 0 (th [.code (locked ioInstanceMutex skip)]) }
  let s3 : State Mutex Op := ⟨Function.update s2.threads 0
    (th [.code skip, .unlock ioInstanceMutex]), Function.update s2.owner ioInstanceMutex (some 0)⟩
  let s4 := { s3 with threads := Function.update s3.threads 1 (th [.code (call ioDeinit)]) }
  let s5 := { s4 with
    threads := Function.update s4.threads 1 (th [.code (locked ioInstanceMutex skip)]) }
  have hp : Path (step body) s0 [⟨s0, (0, .op ioInit), s1⟩, ⟨s1, (0, .go), s2⟩,
      ⟨s2, (0, .go), s3⟩, ⟨s3, (1, .op ioDeinit), s4⟩, ⟨s4, (1, .go), s5⟩] s5 :=
    ((((Path.nil.snoc rfl).snoc rfl).snoc rfl).snoc rfl).snoc rfl
  have hearly : ∀ m ∈ [(⟨s0, (0, .op ioInit), s1⟩ : Move _ (Nat × Choice Op)), ⟨s1, (0, .go), s2⟩,
      ⟨s2, (0, .go), s3⟩, ⟨s3, (1, .op ioDeinit), s4⟩, ⟨s4, (1, .go), s5⟩],
      ¬Leaks m.pre m.act.1 := by
    simp only [List.forall_mem_cons]
    refine ⟨?_, ?_, ?_, ?_, ?_, nofun⟩ <;> rintro ⟨m, k, -, hstack⟩ <;> cases hstack
  exact ⟨_, s5, hp, rfl, .inr ⟨rfl, _, .inr ⟨skip, rfl⟩⟩,
    threads_deadlock_free hp hearly⟩

end DericRpc.LockOrder
