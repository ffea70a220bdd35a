import DericRpc.Config

/-! What a configuration file says: the value of a key is that of the first line that sets
it, and RpcConfig has it after any loads of well-formed files. -/
namespace DericRpc.Settings
open ByteString Config

/-- The line sets the key to the value. -/
def Sets (buf key value : Bytes) : Prop :=
  buf ≠ [] ∧ buf.head? ≠ some hash ∧ ∃ front back, SplitAt buf front back ∧
    trimEnd front = key ∧ trimStart back = value ∧ ∃ c ∈ back, c ≠ space

/-- The first line that sets the key sets it to the value. -/
def FirstSets (lines : List CppString) (key value : Bytes) : Prop :=
  ∃ pre buf post, lines = pre ++ buf :: post ∧ Sets buf.1 key value ∧
    ∀ b ∈ pre, ∀ other, ¬Sets b.1 key other

/-- init of one object with each file in turn; none is a file that cannot be opened. -/
def loadAll (items : ItemMap) (files : List (Option (List CppString))) : Except Fault ItemMap :=
  files.foldlM (fun items file => (init items file).map Prod.fst) items

/-- All lines, in file and line order. -/
def linesOf (files : List (Option (List CppString))) : List CppString :=
  files.flatMap fun file => file.getD []

theorem emplace_eq_some {items : ItemMap} {key value k v : Bytes} :
    emplace items key value k = some v ↔
      items k = some v ∨ (items k = none ∧ k = key ∧ v = value) := by
  unfold emplace
  cases hkey : items key with
  | some old =>
    refine ⟨.inl, fun h => h.resolve_right ?_⟩
    rintro ⟨hnone, rfl, -⟩
    cases hkey.symm.trans hnone
  | none =>
    by_cases hk : k = key
    · subst hk
      simp [hkey, eq_comm]
    · simp [hk]

theorem Sets.unique {buf key value other : Bytes} (h : Sets buf key value)
    (h' : Sets buf key other) : value = other := by
  obtain ⟨-, -, front, back, hsplit, -, hvalue, -⟩ := h
  obtain ⟨-, -, front', back', hsplit', -, hother, -⟩ := h'
  obtain ⟨-, rfl⟩ := hsplit.unique hsplit'
  exact hvalue.symm.trans hother

/-- A well-formed line adds what it sets where the key has no value yet, and nothing else. -/
theorem parseLine_lookup (items : ItemMap) {buf : CppString} (h : Keyed buf.1) :
    ∃ items', parseLine items buf = .ok items' ∧ ∀ key value, items' key = some value ↔
      items key = some value ∨ (items key = none ∧ Sets buf.1 key value) := by
  by_cases hcomment : buf.1 = [] ∨ buf.1.head? = some hash
  · refine ⟨items, if_pos hcomment, fun key value => ⟨.inl, fun hval => hval.resolve_right ?_⟩⟩
    rintro ⟨-, hempty, hhash, -⟩
    exact hcomment.elim hempty hhash
  obtain ⟨hempty, hhash⟩ := not_or.mp hcomment
  obtain ⟨front, back, hsplit, hkey⟩ := (h.resolve_left hempty).resolve_left hhash
  have hsets (key value : Bytes) : Sets buf.1 key value ↔
      key = trimEnd front ∧ value = trimStart back ∧ ∃ c ∈ back, c ≠ space := by
    constructor
    · rintro ⟨-, -, front', back', hsplit', rfl, rfl, hvalue⟩
      obtain ⟨rfl, rfl⟩ := hsplit.unique hsplit'
      exact ⟨rfl, rfl, hvalue⟩
    · rintro ⟨rfl, rfl, hvalue⟩
      exact ⟨hempty, hhash, front, back, hsplit, rfl, rfl, hvalue⟩
  refine ⟨_, parseLine_split items hcomment hsplit hkey, fun key value => ?_⟩
  rw [hsets]
  by_cases hspaces : back.all (· == space)
  · rw [if_pos hspaces]
    refine ⟨.inl, fun hval => hval.resolve_right ?_⟩
    rintro ⟨-, -, -, c, hc, hne⟩
    exact hne (by simpa using List.all_eq_true.mp hspaces c hc)
  · rw [if_neg hspaces, emplace_eq_some]
    have hvalue : ∃ c ∈ back, c ≠ space := by simpa using hspaces
    simp [hvalue]

theorem FirstSets.cons_iff {buf : CppString} {lines : List CppString} {key value : Bytes} :
    FirstSets (buf :: lines) key value ↔
      Sets buf.1 key value ∨ ((∀ other, ¬Sets buf.1 key other) ∧ FirstSets lines key value) := by
  constructor
  · rintro ⟨pre, b, post, hlines, hb, hpre⟩
    cases pre with
    | nil =>
      obtain ⟨rfl, -⟩ := List.cons.inj hlines
      exact .inl hb
    | cons p pre =>
      obtain ⟨rfl, rfl⟩ := List.cons.inj hlines
      exact .inr ⟨hpre buf List.mem_cons_self,
        pre, b, post, rfl, hb, fun x hx => hpre x (List.mem_cons_of_mem _ hx)⟩
  · rintro (hb | ⟨hnone, pre, b, post, rfl, hb, hpre⟩)
    · exact ⟨[], buf, lines, rfl, hb, List.forall_mem_nil _⟩
    · exact ⟨buf :: pre, b, post, rfl, hb, List.forall_mem_cons.mpr ⟨hnone, hpre⟩⟩

/-- Lines read one after another: keys that had a value keep it, the others get that of the
first line that sets them. -/
theorem foldlM_lookup (items : ItemMap) {lines : List CppString} (h : ∀ buf ∈ lines, Keyed buf.1) :
    ∃ items', lines.foldlM parseLine items = .ok items' ∧ ∀ key value, items' key = some value ↔
      items key = some value ∨ (items key = none ∧ FirstSets lines key value) := by
  induction lines generalizing items with
  | nil =>
    refine ⟨items, rfl, fun key value => ⟨.inl, fun hval => hval.resolve_right ?_⟩⟩
    rintro ⟨-, pre, buf, post, hlines, -⟩
    simp at hlines
  | cons buf lines ih =>
    obtain ⟨next, hok, hnext⟩ := parseLine_lookup items (h buf List.mem_cons_self)
    obtain ⟨items', hrest, hlookup⟩ := ih next fun b hb => h b (List.mem_cons_of_mem _ hb)
    refine ⟨items', by rw [List.foldlM_cons, hok]; exact hrest, fun key value => ?_⟩
    have hnone : next key = none ↔ items key = none ∧ ∀ other, ¬Sets buf.1 key other := by
      simp only [Option.eq_none_iff_forall_ne_some, ne_eq, hnext]
      constructor
      · intro hall
        have hold (other : Bytes) : items key ≠ some other := fun he => hall other (.inl he)
        exact ⟨hold, fun other hs => hall other (.inr ⟨hold, hs⟩)⟩
      · rintro ⟨hold, hsets⟩ other (he | ⟨-, hs⟩)
        · exact hold other he
        · exact hsets other hs
    rw [hlookup, hnext, hnone, FirstSets.cons_iff]
    tauto

theorem exists_firstSets {lines : List CppString} {key : Bytes} :
    (∃ value, FirstSets lines key value) ↔ ∃ buf ∈ lines, ∃ value, Sets buf.1 key value := by
  constructor
  · rintro ⟨value, pre, buf, post, rfl, hbuf, -⟩
    exact ⟨buf, List.mem_append_right _ List.mem_cons_self, value, hbuf⟩
  · induction lines with
    | nil => simp
    | cons line lines ih =>
      by_cases hline : ∃ value, Sets line.1 key value
      · obtain ⟨value, hline⟩ := hline
        exact fun _ => ⟨value, FirstSets.cons_iff.mpr (.inl hline)⟩
      · rintro ⟨buf, hbuf, hsets⟩
        rcases List.mem_cons.mp hbuf with rfl | hbuf
        · exact absurd hsets hline
        · obtain ⟨value, hfirst⟩ := ih ⟨buf, hbuf, hsets⟩
          exact ⟨value, FirstSets.cons_iff.mpr (.inr ⟨not_exists.mp hline, hfirst⟩)⟩

theorem loadAll_eq (items : ItemMap) (files : List (Option (List CppString))) :
    loadAll items files = (linesOf files).foldlM parseLine items := by
  induction files generalizing items with
  | nil => rfl
  | cons file files ih =>
    rw [linesOf, List.flatMap_cons, List.foldlM_append, loadAll, List.foldlM_cons]
    cases file with
    | none => exact ih items
    | some lines =>
      have hinit : (init items (some lines)).map Prod.fst = lines.foldlM parseLine items := by
        rw [init]
        cases lines.foldlM parseLine items <;> rfl
      rw [hinit, Option.getD_some]
      cases lines.foldlM parseLine items with
      | error e => rfl
      | ok next => exact ih next

theorem getValue_found {items : ItemMap} {key value : Bytes} :
    getValue items key = (some value, 0) ↔ items key = some value := by
  unfold getValue
  cases items key <;> simp

theorem getValue_missing {items : ItemMap} {key : Bytes} :
    getValue items key = (none, -1) ↔ ∀ value, items key ≠ some value := by
  unfold getValue
  cases items key <;> simp

/-- For any well-formed files: loading them succeeds, a key has the value of the first line
that sets it, and no value when none does. -/
theorem values_as_written (files : List (Option (List CppString)))
    (h : ∀ buf ∈ linesOf files, Keyed buf.1) :
    ∃ items, loadAll (fun _ => none) files = .ok items ∧ ∀ key,
      (∀ value, getValue items key = (some value, 0) ↔ FirstSets (linesOf files) key value) ∧
      (getValue items key = (none, -1) ↔ ∀ buf ∈ linesOf files, ∀ value, ¬Sets buf.1 key value) := by
  obtain ⟨items, hok, hlookup⟩ := foldlM_lookup (fun _ => none) h
  have hvalue (key value : Bytes) : items key = some value ↔ FirstSets (linesOf files) key value := by
    rw [hlookup]
    simp
  refine ⟨items, (loadAll_eq _ _).trans hok, fun key => ⟨fun value => ?_, ?_⟩⟩
  · rw [getValue_found, hvalue]
  · have hnone := not_congr (@exists_firstSets (linesOf files) key)
    simp only [not_exists, not_and] at hnone
    simp only [getValue_missing, ne_eq, hvalue, hnone]

/-- The line "k = v=1", and behind it "k=2". -/
def twoValues : List CppString :=
  [⟨[107, 32, 61, 32, 118, 61, 49], by decide⟩, ⟨[107, 61, 50], by decide⟩]

theorem twoValues_keyed : ∀ buf ∈ linesOf [none, some twoValues], Keyed buf.1 := by
  intro buf hbuf
  have hmem : buf ∈ twoValues := by simpa [linesOf] using hbuf
  rcases List.mem_cons.mp hmem with rfl | hmem
  · exact .inr (.inr ⟨[107, 32], [32, 118, 61, 49], by unfold SplitAt; decide, by decide⟩)
  · obtain rfl := List.mem_singleton.mp hmem
    exact .inr (.inr ⟨[107], [50], by unfold SplitAt; decide, by decide⟩)

theorem values_as_written_two : ∃ items, loadAll (fun _ => none) [none, some twoValues] = .ok items ∧
    getValue items [107] = (some [118, 61, 49], 0) := by
  obtain ⟨items, hok, hvalue⟩ := values_as_written [none, some twoValues] twoValues_keyed
  refine ⟨items, hok, ((hvalue [107]).1 _).mpr ⟨[], _, _, rfl, ?_, List.forall_mem_nil _⟩⟩
  exact ⟨by decide, by decide, [107, 32], [32, 118, 61, 49], by unfold SplitAt; decide, by decide,
    by decide, by decide⟩

end DericRpc.Settings
