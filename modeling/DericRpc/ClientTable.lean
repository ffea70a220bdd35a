import DericRpc.Lib.Lts
import Mathlib.Data.Nat.ModEq
import Mathlib.Logic.Function.Basic

/-! m_clients over any run of createIoConnectionClient and removeIoConnectionClient, under ids
from a counter of 32 bits. -/
namespace DericRpc.ClientTable
open Lts
variable {S : Type} [DecidableEq S]

/-- `index` is the static variable of getNewClientId, which all services of the process share.
`entries` gives the id of each RpcServiceClientEntry in the order in which they were made, and
`clients` the m_clients of each service by the numbers of the entries. -/
structure Services (S : Type) where
  index : UInt32 := 0
  entries : List UInt32 := []
  clients : S → UInt32 → Option Nat := fun _ _ => none

def getNewClientId (u : Services S) : Services S × UInt32 :=
  ({ u with index := u.index + 1 }, u.index + 1)

def Services.setClient (u : Services S) (s : S) (clientId : UInt32) (n : Option Nat) : Services S :=
  { u with clients := Function.update u.clients s (Function.update (u.clients s) clientId n) }

def createIoConnectionClient (u : Services S) (s : S) : Services S :=
  let (u, clientId) := getNewClientId u
  { u.setClient s clientId (some u.entries.length) with entries := u.entries ++ [clientId] }

def removeClientId (u : Services S) (s : S) (clientId : UInt32) : Services S :=
  u.setClient s clientId none

/-- The pointer is an entry by its number; `none` stands for any other and for null. -/
def removeIoConnectionClient (u : Services S) (s : S) (client : Option Nat) :
    Option (Services S) :=
  match client with
  | none => some u
  | some n => (u.entries[n]?).map fun clientId => removeClientId u s clientId

inductive Act (S : Type) where
  | create (s : S)
  | removeId (s : S) (clientId : UInt32)
  | remove (s : S) (client : Option Nat)

def step (u : Services S) : Act S → Option (Services S)
  | .create s => some (createIoConnectionClient u s)
  | .removeId s clientId => some (removeClientId u s clientId)
  | .remove s client => removeIoConnectionClient u s client

/-- The action is the removal of the entry `n` that service `s` has under `clientId`. -/
def Removes (s : S) (clientId : UInt32) (n : Nat) : Act S → Prop
  | .create _ => False
  | .removeId t k => t = s ∧ k = clientId
  | .remove t client => t = s ∧ client = some n

/-- Every key is the id of its entry, and an action that does not remove an entry leaves it. -/
structure Intact (m : Move (Services S) (Act S)) : Prop where
  keyed : ∀ s k n, m.post.clients s k = some n → m.post.entries[n]? = some k
  kept : ∀ s k n, m.pre.clients s k = some n → ¬Removes s k n m.act →
    m.post.clients s k = some n
  added : ∀ s k n, m.post.clients s k = some n → m.pre.clients s k = some n ∨
    (m.act = .create s ∧ n = m.pre.entries.length)

/-- A new client, or one that is removed by its pointer, is not a multiple of 2^32 creations
away from another one that the service has. -/
def Apart (u : Services S) : Act S → Prop
  | .create s => ∀ k n, u.clients s k = some n → ¬n ≡ u.entries.length [MOD 2 ^ 32]
  | .remove s (some x) => ∀ k n, u.clients s k = some n → n ≠ x → ¬n ≡ x [MOD 2 ^ 32]
  | _ => True

/-- The ids are the numbers of the entries, counted from 1 and cut to 32 bits. -/
structure Inv (u : Services S) : Prop where
  index : u.index = UInt32.ofNat u.entries.length
  entries : ∀ n < u.entries.length, u.entries[n]? = some (UInt32.ofNat (n + 1))
  clients : ∀ s k n, u.clients s k = some n → n < u.entries.length ∧ k = UInt32.ofNat (n + 1)

omit [DecidableEq S] in
theorem inv_new : Inv ({} : Services S) where
  index := rfl
  entries n h := absurd h (Nat.not_lt_zero n)
  clients s k n h := by cases h

theorem ofNat_eq_iff (m n : Nat) :
    UInt32.ofNat (m + 1) = UInt32.ofNat (n + 1) ↔ m ≡ n [MOD 2 ^ 32] := by
  rw [← UInt32.toNat_inj, UInt32.toNat_ofNat', UInt32.toNat_ofNat']
  exact ⟨fun h => Nat.ModEq.add_right_cancel' 1 h, fun h => Nat.ModEq.add_right 1 h⟩

theorem setClient_apply (u : Services S) (s t : S) (i k : UInt32) (n : Option Nat) :
    (u.setClient s i n).clients t k = if t = s ∧ k = i then n else u.clients t k := by
  by_cases ht : t = s
  · subst ht
    by_cases hk : k = i
    · simp [Services.setClient, hk]
    · simp [Services.setClient, hk]
  · simp [Services.setClient, ht]

theorem create_clients (u : Services S) (s t : S) (k : UInt32) :
    (createIoConnectionClient u s).clients t k =
      if t = s ∧ k = u.index + 1 then some u.entries.length else u.clients t k :=
  setClient_apply { u with index := u.index + 1 } s t (u.index + 1) k (some u.entries.length)

theorem create_entries (u : Services S) (s : S) :
    (createIoConnectionClient u s).entries = u.entries ++ [u.index + 1] := rfl

omit [DecidableEq S] in
theorem Inv.newId {u : Services S} (h : Inv u) :
    u.index + 1 = UInt32.ofNat (u.entries.length + 1) := by
  rw [h.index, UInt32.ofNat_add]
  rfl

theorem create_inv {u : Services S} (h : Inv u) (s : S) : Inv (createIoConnectionClient u s) where
  index := by
    rw [create_entries, List.length_append, List.length_singleton, ← h.newId]
    rfl
  entries n hn := by
    rw [create_entries, List.length_append, List.length_singleton] at hn
    rw [create_entries]
    rcases Nat.lt_succ_iff_lt_or_eq.mp hn with hold | rfl
    · rw [List.getElem?_append_left hold]
      exact h.entries n hold
    · rw [List.getElem?_concat_length, h.newId]
  clients t k n hn := by
    rw [create_entries, List.length_append, List.length_singleton]
    rw [create_clients] at hn
    split_ifs at hn with hnew
    · obtain rfl := Option.some.inj hn
      exact ⟨Nat.lt_succ_self _, hnew.2.trans h.newId⟩
    · obtain ⟨hlt, hk⟩ := h.clients t k n hn
      exact ⟨Nat.lt_succ_of_lt hlt, hk⟩

theorem removeClientId_inv {u : Services S} (h : Inv u) (s : S) (clientId : UInt32) :
    Inv (removeClientId u s clientId) where
  index := h.index
  entries := h.entries
  clients t k n hn := by
    rw [removeClientId, setClient_apply] at hn
    split_ifs at hn
    exact h.clients t k n hn

theorem remove_cases {u v : Services S} {s : S} {client : Option Nat}
    (h : removeIoConnectionClient u s client = some v) :
    (client = none ∧ v = u) ∨
      ∃ n clientId, client = some n ∧ u.entries[n]? = some clientId ∧
        v = removeClientId u s clientId := by
  cases client with
  | none => exact .inl ⟨rfl, (Option.some.inj h).symm⟩
  | some n =>
    obtain ⟨clientId, hid, rfl⟩ := Option.map_eq_some_iff.mp h
    exact .inr ⟨n, clientId, rfl, hid, rfl⟩

theorem step_inv {u v : Services S} {a : Act S} (h : Inv u) (hs : step u a = some v) : Inv v := by
  cases a with
  | create s =>
    obtain rfl := Option.some.inj hs
    exact create_inv h s
  | removeId s clientId =>
    obtain rfl := Option.some.inj hs
    exact removeClientId_inv h s clientId
  | remove s client =>
    rcases remove_cases hs with ⟨-, rfl⟩ | ⟨n, clientId, -, -, rfl⟩
    · exact h
    · exact removeClientId_inv h s clientId

omit [DecidableEq S] in
theorem Inv.keyed {u : Services S} (h : Inv u) (s : S) (k : UInt32) (n : Nat)
    (hn : u.clients s k = some n) : u.entries[n]? = some k := by
  obtain ⟨hlt, rfl⟩ := h.clients s k n hn
  exact h.entries n hlt

/-- A new client replaces another exactly when that one's id comes around again. -/
theorem create_iff {u : Services S} (h : Inv u) (s : S) :
    Intact ⟨u, .create s, createIoConnectionClient u s⟩ ↔ Apart u (.create s) := by
  have hsame {k : UInt32} {n : Nat} (hn : u.clients s k = some n) :
      k = u.index + 1 ↔ n ≡ u.entries.length [MOD 2 ^ 32] := by
    rw [(h.clients s k n hn).2, h.newId, ofNat_eq_iff]
  constructor
  · intro hintact k n hn hcongr
    have hkept := hintact.kept s k n hn id
    simp only [create_clients] at hkept
    rw [if_pos ⟨trivial, (hsame hn).mpr hcongr⟩] at hkept
    have hlt := (h.clients s k n hn).1
    exact absurd (Option.some.inj hkept) (Nat.ne_of_gt hlt)
  · intro hapart
    refine ⟨(create_inv h s).keyed, fun t k n hn _ => ?_, fun t k n hn => ?_⟩
    · simp only [create_clients]
      rw [if_neg]
      · exact hn
      · rintro ⟨rfl, hk⟩
        exact hapart k n hn ((hsame hn).mp hk)
    · simp only [create_clients] at hn
      split_ifs at hn with hnew
      · exact .inr ⟨by rw [hnew.1], (Option.some.inj hn).symm⟩
      · exact .inl hn

theorem removeClientId_intact {u : Services S} (h : Inv u) {s : S} {clientId : UInt32} {a : Act S}
    (hremoves : ∀ n, u.clients s clientId = some n → Removes s clientId n a) :
    Intact ⟨u, a, removeClientId u s clientId⟩ where
  keyed := (removeClientId_inv h s clientId).keyed
  kept t k n hn hnot := by
    rw [removeClientId, setClient_apply, if_neg]
    · exact hn
    · rintro ⟨rfl, rfl⟩
      exact hnot (hremoves n hn)
  added t k n hn := by
    rw [removeClientId, setClient_apply] at hn
    split_ifs at hn
    exact .inl hn

/-- A removal by pointer takes out the entry under the client's id, whichever that is. -/
theorem remove_iff {u : Services S} (h : Inv u) (s : S) {x : Nat} {clientId : UInt32}
    (hx : u.entries[x]? = some clientId) :
    Intact ⟨u, .remove s (some x), removeClientId u s clientId⟩ ↔ Apart u (.remove s (some x)) := by
  obtain ⟨hlt, -⟩ := List.getElem?_eq_some_iff.mp hx
  obtain rfl : UInt32.ofNat (x + 1) = clientId := Option.some.inj ((h.entries x hlt).symm.trans hx)
  constructor
  · intro hintact k n hn hne hcongr
    have hk : k = UInt32.ofNat (x + 1) :=
      (h.clients s k n hn).2.trans ((ofNat_eq_iff n x).mpr hcongr)
    have hkept := hintact.kept s k n hn fun hremoves => hne (Option.some.inj hremoves.2).symm
    rw [removeClientId, setClient_apply, if_pos ⟨rfl, hk⟩] at hkept
    cases hkept
  · intro hapart
    refine removeClientId_intact h fun n hn => ⟨rfl, congrArg some ?_⟩
    by_contra hne
    have hid := (h.clients s _ n hn).2
    exact hapart _ n hn (Ne.symm hne) ((ofNat_eq_iff n x).mp hid.symm)

theorem step_iff {u v : Services S} {a : Act S} (h : Inv u) (hs : step u a = some v) :
    Intact ⟨u, a, v⟩ ↔ Apart u a := by
  cases a with
  | create s =>
    obtain rfl := Option.some.inj hs
    exact create_iff h s
  | removeId s clientId =>
    obtain rfl := Option.some.inj hs
    exact iff_of_true (removeClientId_intact h fun n _ => ⟨rfl, rfl⟩) trivial
  | remove s client =>
    rcases remove_cases hs with ⟨rfl, rfl⟩ | ⟨n, clientId, rfl, hid, rfl⟩
    · exact iff_of_true ⟨h.keyed, fun _ _ _ hn _ => hn, fun _ _ _ hn => .inl hn⟩ trivial
    · exact remove_iff h s hid

/-- In every run of calls on any services of a process: keys are ids, no entry is replaced and
none is removed for another, exactly when a service never has two clients whose numbers
differ by a multiple of 2^32, nor is asked to remove one for the other. -/
theorem table_intact_iff {ms : List (Move (Services S) (Act S))} {v : Services S}
    (h : Path step {} ms v) : (∀ m ∈ ms, Intact m) ↔ ∀ m ∈ ms, Apart m.pre m.act :=
  h.moves_iff (J := Inv) inv_new (fun _ _ _ hi hs => step_inv hi hs) fun _ hi hs => step_iff hi hs

theorem table_intact_iff_create : ∃ (ms : List (Move (Services Unit) (Act Unit)))
    (v : Services Unit), Path step {} ms v ∧ v.clients () 1 = some 0 ∧
      ((∀ m ∈ ms, Intact m) ↔ ∀ m ∈ ms, Apart m.pre m.act) := by
  have hp : Path step ({} : Services Unit) _ (createIoConnectionClient {} ()) :=
    Path.nil.snoc (a := .create ()) rfl
  exact ⟨_, _, hp, by rw [create_clients]; rfl, table_intact_iff hp⟩

theorem keeps_first (n : Nat) (hn : n < 2 ^ 32) :
    ∃ (ms : List (Move (Services Unit) (Act Unit))) (u : Services Unit),
      Path step {} ms u ∧ u.entries.length = n + 1 ∧ u.clients () 1 = some 0 := by
  induction n with
  | zero =>
    have hp : Path step ({} : Services Unit) _ (createIoConnectionClient {} ()) :=
      Path.nil.snoc (a := .create ()) rfl
    exact ⟨_, _, hp, rfl, by rw [create_clients]; rfl⟩
  | succ n ih =>
    obtain ⟨ms, u, hp, hlen, hfirst⟩ := ih (Nat.lt_of_succ_lt hn)
    have hinv : Inv u := hp.invariant inv_new fun _ _ _ hi hs => step_inv hi hs
    have hnew : (1 : UInt32) ≠ u.index + 1 := by
      rw [hinv.newId, hlen]
      intro heq
      have hcongr : 0 % 2 ^ 32 = (n + 1) % 2 ^ 32 := (ofNat_eq_iff 0 (n + 1)).mp heq
      rw [Nat.mod_eq_of_lt hn] at hcongr
      exact absurd hcongr (Nat.zero_ne_add_one n)
    have hcreate := hp.snoc (a := .create ()) rfl
    refine ⟨_, _, hcreate.snoc (a := .removeId () (u.index + 1)) rfl, ?_, ?_⟩
    · rw [removeClientId, Services.setClient, create_entries, List.length_append, hlen]
      rfl
    · rw [removeClientId, setClient_apply, if_neg fun h => hnew h.2, create_clients,
        if_neg fun h => hnew h.2, hfirst]

theorem long_lived_client_replaced : ∃ (ms : List (Move (Services Unit) (Act Unit)))
    (v : Services Unit), Path step {} ms v ∧ ∃ m ∈ ms, m.act = .create () ∧
      m.pre.clients () 1 = some 0 ∧ m.post.clients () 1 = some (2 ^ 32) ∧ ¬Intact m := by
  obtain ⟨ms, u, hp, hlen, hfirst⟩ := keeps_first (2 ^ 32 - 1) (by decide)
  have hinv : Inv u := hp.invariant inv_new fun _ _ _ hi hs => step_inv hi hs
  have hnew : (1 : UInt32) = u.index + 1 := by
    rw [hinv.newId, hlen]
    rfl
  have hreplaced : (createIoConnectionClient u ()).clients () 1 = some (2 ^ 32) := by
    rw [create_clients, if_pos ⟨rfl, hnew⟩, hlen]
    rfl
  have hlast := hp.snoc (a := .create ()) rfl
  refine ⟨_, _, hlast, _, List.mem_append_right _ (List.mem_singleton.mpr rfl), rfl, hfirst,
    hreplaced, fun hintact => ?_⟩
  have hkept := hintact.kept () 1 0 hfirst id
  exact absurd (hreplaced.symm.trans hkept) (by decide)

end DericRpc.ClientTable
