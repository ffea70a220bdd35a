import DericRpc.LockOrder
import DericRpc.Lib.Lockset

/-! The fields that are shared between threads and have a mutex: where the operations access
them, in any number of services and clients. -/
namespace DericRpc.Fields
open Lts Locks Lockset LockOrder

/-- m_init is DericProcess's, m_ioMembers IoModule's; those of RpcServiceImpl belong to a service,
m_waitingItems to a client. -/
inductive SharedField where
  | init
  | ioMembers
  | state (s : Nat)
  | serialer (s : Nat)
  | ioServer (s : Nat)
  | clients (s : Nat)
  | functions (s : Nat)
  | waitingItems (c : Nat)

open Code Mutex Op SharedField

def guard : SharedField → Mutex
  | init => initMutex
  | SharedField.ioMembers => ioMembersMutex
  | state s | serialer s | ioServer s => instanceMutex s
  | clients s => clientsMutex s
  | functions s => functionsMutex s
  | waitingItems c => waitingLock c

/-- The code of LockOrder with the accesses to the fields. The operations that are not listed
access none of them. -/
def accesses : Op → Code Mutex (Op ⊕ SharedField)
  | processInit =>
    locked initMutex (all [access init,
      opt (all [op ioInit,
        opt (all [op ioStart, choice (op ioDeinit) (access init)])])])
  | processDeinit =>
    locked initMutex (all [access init,
      opt (all [op ioStop, opt (all [op ioDeinit, opt (access init)])])])
  -- the find before the break is under the mutex too
  | addIoMember =>
    opt (choice (all [leak ioMembersMutex, access ioMembers])
      (all [locked ioMembersMutex (all [access ioMembers, access ioMembers]), op wakeupModule]))
  | removeIoMember =>
    opt (choice (all [leak ioMembersMutex, access ioMembers])
      (locked ioMembersMutex (all [access ioMembers, access ioMembers])))
  | waitThreadFunc =>
    all [locked ioInstanceMutex skip,
      loop (all [loop (opt (all [locked ioMembersMutex (all [access ioMembers,
          opt (access ioMembers)]), opt (lift memberEvent)])),
        loop (locked ioMembersMutex (access ioMembers))]),
      locked ioInstanceMutex skip]
  | serviceInit s =>
    locked (instanceMutex s) (all [access (state s),
      opt (all [access (serialer s), access (ioServer s), op (serverInit s),
        opt (access (ioServer s))]),
      opt (access (state s))])
  | serviceDeInit s =>
    locked (instanceMutex s) (all [access (state s),
      opt (all [access (ioServer s), opt (all [op (serverDeInit s), opt (access (ioServer s))]),
        opt (access (serialer s))]),
      opt (access (state s))])
  | serviceStart s =>
    locked (instanceMutex s) (all [access (state s),
      opt (all [access (ioServer s), opt (op (serverStart s))]),
      opt (access (state s))])
  | serviceStop s =>
    locked (instanceMutex s) (all [access (state s),
      opt (all [access (ioServer s),
        opt (all [locked (clientsMutex s) (all [
            loop (all [access (clients s), op (entryStop s)]), access (clients s)]),
          access (ioServer s), op (serverStop s)])]),
      access (state s)])
  | registerMethod s | unregisterMethod s =>
    locked (functionsMutex s) (all [access (functions s), opt (access (functions s))])
  | createIoConnectionClient s => locked (clientsMutex s) (access (clients s))
  | removeIoConnectionClient s =>
    locked (clientsMutex s) (all [access (clients s), access (clients s)])
  -- behind the section the serialer is a copy
  | serviceHandleData s =>
    opt (all [locked (instanceMutex s) (all [access (state s),
        opt (all [access (serialer s), opt (access (serialer s))])]),
      opt (op (handleCommand s))])
  -- and so is the function
  | handleCommand s =>
    all [locked (functionsMutex s) (all [access (functions s), opt (access (functions s))]),
      opt user]
  | clientDeinit c => locked (waitingLock c) (access (waitingItems c))
  | serviceMessageCallback c =>
    opt (locked (waitingLock c) (all [access (waitingItems c), opt (access (waitingItems c))]))
  | waitForResult c =>
    all [op (addResultWaitingItem c),
      opt (all [locked (waitingLock c) (all [access (waitingItems c), wait (waitingLock c),
          access (waitingItems c)]),
        op (removeResultWaitingItem c)])]
  | addResultWaitingItem c | removeResultWaitingItem c =>
    locked (waitingLock c) (all [access (waitingItems c), opt (access (waitingItems c))])
  | o => lift (body o)

/-- The accesses add nothing to the locking. -/
theorem accesses_body (o : Op) : tidy (forget (accesses o)) = tidy (body o) := by
  cases o <;> rfl

theorem accesses_guarded (o : Op) : Guarded guard none (fun _ => False) (accesses o) := by
  cases o <;> simp [accesses, Guarded, all, opt, access, op, guard, leaks, lift, body, memberEvent]

def guarding : Guarding Mutex Op SharedField where
  body := accesses
  guard := guard
  guarded := accesses_guarded

/-- Any number of threads in any operations, user functions and IO thread included, and also
behind an early exit of addIoMember or removeIoMember: between two accesses of different threads
to one of the fields, the first thread unlocks the mutex of the field and then the second locks
it. No two are at one field at the same time. -/
theorem accesses_ordered {ms ns : List (Move (State Mutex (Op ⊕ SharedField)) (Nat × Choice Op))}
    {s s' : State Mutex (Op ⊕ SharedField)} {t u : Nat} {f : SharedField}
    (h : Path (Lockset.step accesses) start ms s) (h' : Path (Lockset.step accesses) s ns s')
    (ht : AtAccess s t f) (hu : AtAccess s' u f) (hne : t ≠ u) :
    ∃ p r q a w, ns = p ++ r :: (q ++ a :: w) ∧ Releases r t (guard f) ∧
      Acquires a u (guard f) :=
  guarding.ordered h h' ht hu hne

/-- One thread registers a function and another looks one up to remove it. -/
theorem accesses_ordered_functions :
    ∃ (s s' : State Mutex (Op ⊕ SharedField)) (ns : List (Move (State Mutex (Op ⊕ SharedField))
        (Nat × Choice Op))),
      AtAccess s 0 (functions 0) ∧ AtAccess s' 1 (functions 0) ∧
      ∃ p r q a w, ns = p ++ r :: (q ++ a :: w) ∧ Releases r 0 (functionsMutex 0) ∧
        Acquires a 1 (functionsMutex 0) := by
  obtain ⟨s, s', hs, hs', h0, h1⟩ : ∃ s s', Lts.run (Lockset.step accesses) start
        [(0, .op (registerMethod 0)), (0, .go), (0, .go), (0, .go)] = some s ∧
      Lts.run (Lockset.step accesses) s [(0, .go), (0, .go), (0, .go), (0, .right), (0, .go),
        (0, .go), (0, .go), (1, .op (unregisterMethod 0)), (1, .go), (1, .go), (1, .go)] =
          some s' ∧ AtAccess s 0 (functions 0) ∧ AtAccess s' 1 (functions 0) :=
    ⟨_, _, rfl, rfl, ⟨rfl, _, rfl⟩, ⟨rfl, _, rfl⟩⟩
  obtain ⟨ms, hp, -⟩ := path_of_run hs
  obtain ⟨ns, hp', -⟩ := path_of_run hs'
  exact ⟨s, s', ns, h0, h1, accesses_ordered hp hp' h0 h1 Nat.zero_ne_one⟩

end DericRpc.Fields
