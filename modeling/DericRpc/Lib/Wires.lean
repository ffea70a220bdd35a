import DericRpc.Lib.Codec
import DericRpc.Lib.Lts

/-! Byte streams between two ends. What is written arrives in pieces of any size, and a reader
takes one item after the other off what has arrived. -/
namespace DericRpc.Wires
open ByteString Codec Lts
variable {α M : Type}

/-- One direction of a connection: the bytes under way and those that have arrived unread. -/
structure Wire where
  sent : Bytes := []
  arrived : Bytes := []
  deriving DecidableEq

def Wire.content (w : Wire) : Bytes := w.arrived ++ w.sent

def Wire.write (w : Wire) (b : Bytes) : Wire := { w with sent := w.sent ++ b }

/-- The next `n` bytes arrive, or all there are. -/
def Wire.arrive (w : Wire) (n : Nat) : Wire := ⟨w.sent.drop n, w.arrived ++ w.sent.take n⟩

/-- The reader sees what has arrived and nothing else. -/
def Wire.read (p : Reader α) (w : Wire) : Option (α × Wire) :=
  (p w.arrived).map fun (a, rest) => (a, { w with arrived := rest })

@[simp] theorem write_content (w : Wire) (b : Bytes) : (w.write b).content = w.content ++ b := by
  simp [Wire.write, Wire.content]

@[simp] theorem arrive_content (w : Wire) (n : Nat) : (w.arrive n).content = w.content := by
  simp [Wire.arrive, Wire.content]

theorem arrive_all (w : Wire) : w.arrive w.sent.length = ⟨[], w.content⟩ := by
  simp [Wire.arrive, Wire.content]

/-- What is read from the bytes that have arrived is what the whole content begins with. -/
theorem read_content {p : Reader α} (hp : Extends p p) {w w' : Wire} {a : α}
    (h : w.read p = some (a, w')) : p w.content = some (a, w'.content) := by
  obtain ⟨⟨a', rest⟩, hread, he⟩ := Option.map_eq_some_iff.mp h
  obtain ⟨rfl, rfl⟩ := Prod.mk.inj he
  exact hp w.arrived a' rest w.sent hread

/-- The items at the front of a string, one behind the other, and the bytes behind them. -/
inductive Reads (p : Reader α) : Bytes → List α → Bytes → Prop
  | done (b : Bytes) : Reads p b [] b
  | item {b b' rest : Bytes} {a : α} {as : List α} :
      p b = some (a, b') → Reads p b' as rest → Reads p b (a :: as) rest

variable {p : Reader α} {b rest rest' : Bytes} {as as' : List α}

theorem Reads.extend (hp : Extends p p) (h : Reads p b as rest) (s : Bytes) :
    Reads p (b ++ s) as (rest ++ s) := by
  induction h with
  | done b => exact .done _
  | item hb _ ih => exact .item (hp _ _ _ s hb) ih

theorem Reads.append (h : Reads p b as rest) (h' : Reads p rest as' rest') :
    Reads p b (as ++ as') rest' := by
  induction h with
  | done b => exact h'
  | item hb _ ih => exact .item hb (ih h')

/-- A reading that cannot go on has every other reading of the same bytes as a prefix. -/
theorem Reads.within (h : Reads p b as rest) (h' : Reads p b as' rest') (hend : p rest' = none) :
    as <+: as' := by
  induction h generalizing as' with
  | done b => exact List.nil_prefix
  | @item b b₁ rest a as hb _ ih =>
    cases h' with
    | done => rw [hb] at hend; cases hend
    | @item _ b₂ _ a' as' hb' h' =>
      obtain ⟨rfl, rfl⟩ := Prod.mk.inj (Option.some.inj (hb.symm.trans hb'))
      exact List.cons_prefix_cons.mpr ⟨rfl, ih h'⟩

theorem Reads.unique (h : Reads p b as rest) (h' : Reads p b as' rest') (hend : p rest = none)
    (hend' : p rest' = none) : as = as' ∧ rest = rest' := by
  induction h generalizing as' with
  | done b =>
    cases h' with
    | done => exact ⟨rfl, rfl⟩
    | item hb' _ => rw [hb'] at hend; cases hend
  | @item b b₁ rest a as hb _ ih =>
    cases h' with
    | done => rw [hb] at hend'; cases hend'
    | @item _ b₂ _ a' as' hb' h' =>
      obtain ⟨rfl, rfl⟩ := Prod.mk.inj (Option.some.inj (hb.symm.trans hb'))
      obtain ⟨rfl, rfl⟩ := ih h' hend
      exact ⟨rfl, rfl⟩

/-- The reader takes the messages of the list, written one behind the other, as these items. -/
def Encodes (p : Reader α) (enc : M → Bytes) (item : M → α) (ms : List M) : Prop :=
  ∀ m ∈ ms, ∀ rest, p (enc m ++ rest) = some (item m, rest)

theorem Encodes.reads {enc : M → Bytes} {item : M → α} {ms : List M}
    (h : Encodes p enc item ms) (rest : Bytes) :
    Reads p (ms.flatMap enc ++ rest) (ms.map item) rest := by
  induction ms with
  | nil => exact .done rest
  | cons m ms ih =>
    rw [List.flatMap_cons, List.append_assoc, List.map_cons]
    exact .item (h m (by simp) _) (ih fun m' hm' => h m' (List.mem_cons_of_mem m hm'))

theorem read_message (hp : Extends p p) {enc : M → Bytes} {item : M → α} {ms : List M}
    {w w' : Wire} {a : α} (h : w.read p = some (a, w')) (hc : w.content = ms.flatMap enc)
    (hm : Encodes p enc item ms) (hnil : p [] = none) :
    ∃ m rest, ms = m :: rest ∧ a = item m ∧ w'.content = rest.flatMap enc := by
  have hread := read_content hp h
  rw [hc] at hread
  cases ms with
  | nil => rw [List.flatMap_nil, hnil] at hread; cases hread
  | cons m ms =>
    rw [List.flatMap_cons, hm m (by simp)] at hread
    obtain ⟨rfl, hrest⟩ := Prod.mk.inj (Option.some.inj hread)
    exact ⟨m, ms, rfl, rfl, hrest.symm⟩

/-! A wire with a reader at its end, over any run of writes, arrivals and reads. -/

structure Reading (α : Type) where
  wire : Wire := {}
  written : Bytes := []
  items : List α := []

inductive Event where
  | write (b : Bytes)
  | arrive (n : Nat)
  | read

def step (p : Reader α) (u : Reading α) : Event → Option (Reading α)
  | .write b => some { u with wire := u.wire.write b, written := u.written ++ b }
  | .arrive n => some { u with wire := u.wire.arrive n }
  | .read => (u.wire.read p).map fun (a, w) => { u with wire := w, items := u.items ++ [a] }

/-- Everything written is there: as items read, or on the wire behind them. -/
def Accounted (p : Reader α) (u : Reading α) : Prop :=
  Reads p u.written u.items u.wire.content

theorem step_accounted (hp : Extends p p) {u v : Reading α} {e : Event} (hu : Accounted p u)
    (h : step p u e = some v) : Accounted p v := by
  cases e with
  | write b =>
    obtain rfl := Option.some.inj h
    simpa [Accounted] using hu.extend hp b
  | arrive n =>
    obtain rfl := Option.some.inj h
    simpa [Accounted] using hu
  | read =>
    obtain ⟨⟨a, w⟩, hread, rfl⟩ := Option.map_eq_some_iff.mp h
    exact hu.append (.item (read_content hp hread) (.done _))

theorem path_accounted (hp : Extends p p) {ms : List (Move (Reading α) Event)} {u : Reading α}
    (h : Path (step p) {} ms u) : Accounted p u :=
  h.invariant (.done []) fun _ _ _ hu hs => step_accounted hp hu hs

/-- Nothing is under way, and what has arrived makes no further item. -/
def Dry (p : Reader α) (u : Reading α) : Prop := u.wire.sent = [] ∧ p u.wire.arrived = none

theorem Dry.content {u : Reading α} (h : Dry p u) : p u.wire.content = none := by
  rw [Wire.content, h.1, List.append_nil]
  exact h.2

/-- How the bytes were cut on their way makes no difference: of two runs over the same bytes, one
that has run dry has read all that the other has, and if both have, they have read the same. -/
theorem cuts_do_not_matter (hp : Extends p p) {ms ns : List (Move (Reading α) Event)}
    {u v : Reading α} (hu : Path (step p) {} ms u) (hv : Path (step p) {} ns v)
    (hsame : u.written = v.written) (hdry : Dry p v) :
    u.items <+: v.items ∧
      (Dry p u → u.items = v.items ∧ u.wire.arrived = v.wire.arrived) := by
  have hru := path_accounted hp hu
  have hrv := path_accounted hp hv
  rw [Accounted, hsame] at hru
  refine ⟨hru.within hrv hdry.content, fun hdry' => ?_⟩
  obtain ⟨hitems, hrest⟩ := hru.unique hrv hdry'.content hdry.content
  refine ⟨hitems, ?_⟩
  simpa [Wire.content, hdry.1, hdry'.1] using hrest

end DericRpc.Wires
