import Microtask.Proofs.Footprint
import Microtask.Proofs.Play
import Microtask.Proofs.Value.Numbers
import Microtask.Proofs.Value.Texts

/-!
# Arrays

An array keeps its elements under the decimal texts of their positions and its length under
`length`, in one list of properties. The keys are different from each other, so an element is
found under its key (`Object.elements?_ofList`), and an assignment at a position that is there
happens in place: it gives the array of the list in which that position is overwritten
(`Object.set_ofList`). So an array shows its elements in the order of their positions, whatever
the order of the assignments.

Only the host changes objects, one key at a time (`Step.object`). An array that the host changes
only at positions that are there is the array of a list at any time (`Steps.array`). Its text is
that of its elements (`Run.array_contents`), unless something in it contains itself. That need not
be an array: an error may name itself (`Run.array_contents_endless`).
-/

namespace Microtask

variable {H : Type}

namespace Object

variable {xs : List Value}

/-! ## Keys -/

theorem toString_ne_length (i : Nat) : toString i ≠ "length" := by
  intro h
  have hmem : 'l' ∈ Nat.toDigits 10 i := by
    rw [← Nat.toList_repr, show Nat.repr i = "length" from h]
    simp
  exact absurd (Nat.isDigit_of_mem_toDigits (by decide) (by decide) hmem) (by decide)

/-- The properties that hold the elements of a list, the first one at the given position. -/
def entries (start : Nat) (xs : List Value) : List (String × Value) :=
  (xs.zipIdx start).map fun (x, i) => (toString i, x)

theorem entries_cons (start : Nat) (x : Value) (xs : List Value) :
    entries start (x :: xs) = (toString start, x) :: entries (start + 1) xs := rfl

theorem toString_inj {i j : Nat} (h : toString i = toString j) : i = j := by
  have hdigits : Nat.toDigits 10 i = Nat.toDigits 10 j := by
    rw [← Nat.toList_repr, ← Nat.toList_repr]
    exact congrArg String.toList h
  rw [← Nat.ofDigitChars_ten_toDigits (n := i), hdigits, Nat.ofDigitChars_ten_toDigits]

theorem toString_ne_succ (start i : Nat) : toString start ≠ toString (start + (i + 1)) := fun h =>
  absurd (toString_inj h) (by omega)

/-! ## Lists as arrays -/

theorem properties_ofList (xs : List Value) :
    (ofList xs).properties = entries 0 xs ++ [("length", .number (.ofNat xs.length))] := rfl

theorem lookup_length_entries (start : Nat) (rest : List (String × Value)) :
    (entries start xs ++ rest).lookup "length" = rest.lookup "length" := by
  induction xs generalizing start with
  | nil => rfl
  | cons x xs ih =>
    rw [entries_cons, List.cons_append, List.lookup_cons,
      beq_eq_false_iff_ne.2 (toString_ne_length start).symm]
    exact ih (start + 1)

theorem lookup_entries (start : Nat) {i : Nat} (hi : i < xs.length) (rest : List (String × Value)) :
    (entries start xs ++ rest).lookup (toString (start + i)) = some xs[i] := by
  induction xs generalizing start i with
  | nil => cases hi
  | cons x xs ih =>
    rw [entries_cons, List.cons_append, List.lookup_cons]
    cases i with
    | zero => simp
    | succ i =>
      have hnext : start + (i + 1) = start + 1 + i := by omega
      rw [beq_eq_false_iff_ne.2 (toString_ne_succ start i).symm, hnext]
      exact ih (start + 1) (Nat.lt_of_succ_lt_succ hi)

/-- An element is overwritten in place. -/
theorem setProperty_entries (start : Nat) {i : Nat} (hi : i < xs.length) (v : Value)
    (rest : List (String × Value)) :
    setProperty (toString (start + i)) v (entries start xs ++ rest) =
      entries start (xs.set i v) ++ rest := by
  induction xs generalizing start i with
  | nil => cases hi
  | cons x xs ih =>
    rw [entries_cons, List.cons_append, setProperty]
    cases i with
    | zero =>
      rw [Nat.add_zero, if_pos rfl]
      rfl
    | succ i =>
      have hnext : start + (i + 1) = start + 1 + i := by omega
      rw [if_neg (toString_ne_succ start i), hnext, ih (start + 1) (Nat.lt_of_succ_lt_succ hi),
        List.set_cons_succ, entries_cons, List.cons_append]

/-- **Assigning at a position of an array** gives the array of the list with that position
overwritten. -/
theorem set_ofList {i : Nat} (hi : i < xs.length) (v : Value) :
    (ofList xs).set (toString i) v = ofList (xs.set i v) := by
  have hproperties : setProperty (toString i) v (ofList xs).properties =
      (ofList (xs.set i v)).properties := by
    have hset := setProperty_entries 0 hi v [("length", .number (.ofNat xs.length))]
    rw [Nat.zero_add] at hset
    rw [properties_ofList, hset, properties_ofList, List.length_set]
  rw [set, hproperties]
  rfl

theorem length_ofList (h : xs.length < 2 ^ 53) : (ofList xs).length = xs.length := by
  have hlength : (ofList xs).get? "length" = some (.number (.ofNat xs.length)) := by
    rw [get?, properties_ofList, lookup_length_entries]
    rfl
  rw [length, hlength]
  exact Number.toCount_ofNat h

/-- **An array holds the elements that it was made of**, as long as their number is exact. -/
theorem elements?_ofList (h : xs.length < 2 ^ 53) : (ofList xs).elements? = some xs := by
  have harray : (ofList xs).isArray = true := rfl
  rw [elements?, if_pos harray, length_ofList h]
  congr 1
  refine List.ext_getElem (by simp) fun i hi hi' => ?_
  have hlookup := lookup_entries 0 hi' [("length", .number (.ofNat xs.length))]
  rw [Nat.zero_add, ← properties_ofList] at hlookup
  rw [List.getElem_map, List.getElem_range, get?, hlookup, Option.getD_some]

/-- The text of an array shows its elements in order. -/
theorem shown_ofList (xs : List Value) : (ofList xs).shown = xs := by
  have hkeys : ∀ entry ∈ entries 0 xs, decide (entry.1 ≠ "length") = true := by
    intro entry hentry
    obtain ⟨⟨x, i⟩, -, rfl⟩ := List.mem_map.1 hentry
    exact decide_eq_true (toString_ne_length i)
  rw [shown, properties_ofList, List.filter_append, List.filter_eq_self.2 hkeys]
  simp [entries, Function.comp_def]

end Object

/-! ## Overwriting -/

/-- The list with some positions overwritten. The latest write comes first in the list of writes,
and at every position it is the latest one that counts. -/
def overwritten (xs : List Value) (writes : List (Nat × Value)) : List Value :=
  xs.mapIdx fun i x => (writes.lookup i).getD x

@[simp] theorem length_overwritten (xs : List Value) (writes : List (Nat × Value)) :
    (overwritten xs writes).length = xs.length := List.length_mapIdx

@[simp] theorem overwritten_nil (xs : List Value) : overwritten xs [] = xs :=
  List.ext_getElem (length_overwritten xs []) fun _ _ _ => List.getElem_mapIdx ..

/-- One more write sets its position. -/
theorem overwritten_cons (xs : List Value) (i : Nat) (v : Value) (writes : List (Nat × Value)) :
    overwritten xs ((i, v) :: writes) = (overwritten xs writes).set i v := by
  refine List.ext_getElem (by simp) fun j hj hj' => ?_
  rw [List.getElem_set]
  simp only [overwritten, List.getElem_mapIdx, List.lookup_cons]
  by_cases hij : i = j
  · rw [if_pos hij, beq_iff_eq.2 hij.symm, Option.getD_some]
  · rw [if_neg hij, beq_eq_false_iff_ne.2 (Ne.symm hij)]

/-! ## Steps -/

/-- The key that the host assigns of the object, and the value. -/
def Move.assignment? (o : ObjectRef) : Move H → Option (String × Value)
  | .perform (.setProperty u key v) => if u = o then some (key, v) else none
  | _ => none

section Steps

variable {w w' : World H} {m : Move H} {o : ObjectRef}

theorem Move.not_mem_writes (h : m.assignment? o = none) : o ∉ m.writes := by
  cases m with
  | perform op =>
    cases op with
    | setProperty u key v =>
      have hne : u ≠ o := fun heq => by simp [assignment?, heq] at h
      simpa [writes, Op.writes] using hne.symm
    | _ => exact List.not_mem_nil
  | _ => exact List.not_mem_nil

/-- **Only the host changes an object**, by assigning one of its keys. -/
theorem Step.object (h : Step w m w') (hbacked : w.config.engine.Backed)
    (ho : o.index < w.config.engine.objects.size) :
    w'.config.engine.object o =
      match m.assignment? o with
      | some (key, v) => (w.config.engine.object o).set key v
      | none => w.config.engine.object o := by
  cases hassign : m.assignment? o with
  | some assignment =>
    cases m with
    | perform op =>
      cases op with
      | setProperty u key v =>
        obtain ⟨rfl, rfl⟩ : u = o ∧ (key, v) = assignment := by
          simpa [Move.assignment?] using hassign
        cases h with
        | perform => exact (Store.get_modify ..).trans (if_pos rfl)
      | _ => cases hassign
    | _ => cases hassign
  | none =>
    cases hm : m.clears with
    | true =>
      -- dropping jobs is not a chain of acts, and leaves the objects as they are
      cases h with
      | @perform e h prompt held op hop =>
        cases op with
        | clearJobs | reset => rfl
        | _ => cases hm
      | putBack => cases hm
      | _ => cases hm
    | false =>
      have hshows : w.Shows [] (.object o) (w.config.engine.object o) :=
        ⟨o, rfl, ho, fun _ => rfl⟩
      obtain ⟨u, heq, -, hsame⟩ := h.shows hm hbacked hshows
      cases heq
      refine hsame fun ev hev => ?_
      rw [List.mem_singleton.1 hev]
      exact Move.not_mem_writes hassign

theorem Engine.index_lt_of_ofList {e : Engine H} {xs : List Value} (h : e.object o = .ofList xs) :
    o.index < e.objects.size :=
  index_lt_of_kind (.inl (congrArg Object.isArray h))

/-- **An array stays the array of a list**, with the positions overwritten that the host assigns
in the course of the steps, if they are there. -/
theorem Steps.array {es₀ es : List (Event H)} {xs : List Value} {writes : List (Nat × Value)}
    (h : Steps w es w') (hrun : Run es₀ w) (harray : w.config.engine.object o = .ofList xs)
    (hwrites : es.filterMap (·.move.assignment? o) = writes.map fun (i, v) => (toString i, v))
    (hindex : ∀ x ∈ writes, x.1 < xs.length) :
    w'.config.engine.object o = .ofList (overwritten xs writes) := by
  -- the latest event comes first, and so the latest write is taken off at each step
  induction h generalizing writes with
  | refl =>
    obtain rfl : writes = [] := List.map_eq_nil_iff.1 hwrites.symm
    rw [overwritten_nil, harray]
  | @step es w₁ w₂ m h hs ih =>
    have hbacked : w₁.config.engine.Backed := Run.backed (hrun.trans h)
    cases hassign : m.assignment? o with
    | none =>
      simp only [List.filterMap_cons, hassign] at hwrites
      have hobject := ih hwrites hindex
      rw [hs.object hbacked (Engine.index_lt_of_ofList hobject), hassign, hobject]
    | some assignment =>
      simp only [List.filterMap_cons, hassign] at hwrites
      obtain ⟨⟨i, v⟩, rest, rfl, rfl, hrest⟩ := List.map_eq_cons_iff.1 hwrites.symm
      have hobject := ih hrest.symm fun x hx => hindex x (List.mem_cons_of_mem _ hx)
      have hi : i < (overwritten xs rest).length :=
        (hindex _ List.mem_cons_self).trans_eq (length_overwritten xs rest).symm
      rw [hs.object hbacked (Engine.index_lt_of_ofList hobject), hassign, hobject, overwritten_cons]
      exact Object.set_ofList hi v

end Steps

/-! ## Runs -/

/-- **An array holds its elements and shows them in order.** The array is made of fewer than
`2 ^ 53` values, and after that the host assigns only keys of positions in it, the latest
assignment first in `writes`. At any time its elements are those that it was made of, with these
positions overwritten. As long as no array and no error in its text contains itself, every element
has a text, and that of the array is made of them in order, with commas in between, where
undefined and null leave nothing. Otherwise the array has no text. -/
theorem Run.array_contents {es₀ es : List (Event H)} {w₀ w : World H} {o : ObjectRef}
    {xs : List Value} {writes : List (Nat × Value)} (hrun : Run es₀ w₀)
    (harray : w₀.config.engine.object o = .ofList xs) (hlength : xs.length < 2 ^ 53)
    (h : Steps w₀ es w)
    (hwrites : es.filterMap (·.move.assignment? o) = writes.map fun (i, v) => (toString i, v))
    (hindex : ∀ x ∈ writes, x.1 < xs.length) :
    let e := w.config.engine
    let ys := overwritten xs writes
    e.elements? (.object o) = some ys ∧
      ((∀ a, ¬ e.Regress (.object o) a) →
        (∀ y ∈ ys, (e.text? y).isSome) ∧
          e.text? (.object o) = some (",".intercalate (ys.map e.elementText))) ∧
      ((∃ a, e.Regress (.object o) a) → e.text? (.object o) = none) := by
  intro e ys
  have hobject : e.object o = .ofList ys := h.array hrun harray hwrites hindex
  have hshown : (e.object o).shown = ys := by rw [hobject, Object.shown_ofList]
  have hkind : (e.object o).isArray = true := by rw [hobject]; rfl
  refine ⟨?_, fun hregress => ⟨fun y hy => ?_, ?_⟩, fun ⟨a, ha⟩ => ?_⟩
  · have hys : ys.length < 2 ^ 53 := (length_overwritten xs writes).trans_lt hlength
    show (e.object o).elements? = some ys
    rw [hobject, Object.elements?_ofList hys]
  · have hparts := (Engine.hasText_array hkind).1 (Engine.hasText_iff.2 hregress)
    rw [hshown] at hparts
    exact Engine.isSome_text?_iff.2 (hparts y hy)
  · rw [Engine.text?_array (Engine.hasText_iff.2 hregress) hkind, hshown]
  · rw [← Option.not_isSome_iff_eq_none, Engine.isSome_text?_iff, Engine.hasText_iff]
    exact fun hregress => hregress a ha

/-- An array inside another one, with assignments to both. -/
theorem Run.array_contents_nested :
    let ms₀ : List (Move Unit) := [.perform (.newObject (.ofList [.string "x", .null])),
      .perform (.newObject (.ofList [.object ⟨0⟩, .undefined, .string "a"]))]
    let ms : List (Move Unit) := [.perform (.setProperty ⟨1⟩ "2" (.string "b")),
      .perform (.setProperty ⟨0⟩ "1" (.string "y")), .perform (.setProperty ⟨1⟩ "2" (.string "c")),
      .perform (.setProperty ⟨1⟩ "1" .null)]
    let e := ((({} : World Unit).after ms₀).after ms).config.engine
    e.elements? (.object ⟨1⟩) = some [.object ⟨0⟩, .null, .string "c"] ∧
      e.text? (.object ⟨1⟩) = some "x,y,,c" := by
  intro ms₀ ms e
  have hrun : Run (({} : World Unit).events ms₀) (({} : World Unit).after ms₀) :=
    World.steps_after (by decide +kernel)
  have h : Steps (({} : World Unit).after ms₀) ((({} : World Unit).after ms₀).events ms)
      ((({} : World Unit).after ms₀).after ms) := World.steps_after (by decide +kernel)
  have harray : (({} : World Unit).after ms₀).config.engine.object ⟨1⟩ =
      .ofList [.object ⟨0⟩, .undefined, .string "a"] := by decide +kernel
  have hwrites : ((({} : World Unit).after ms₀).events ms).filterMap (·.move.assignment? ⟨1⟩) =
      [(1, .null), (2, .string "c"), (2, .string "b")].map fun (i, v) => (toString i, v) := by
    decide +kernel
  obtain ⟨helements, htext, -⟩ :=
    Run.array_contents hrun harray (by decide) h hwrites (by decide)
  have hregress : ∀ a, ¬ e.Regress (.object ⟨1⟩) a := by
    rw [← Engine.hasText_iff, ← Engine.isSome_text?_iff]
    decide +kernel
  exact ⟨helements, (htext hregress).2.trans (by decide +kernel)⟩

/-- **An array that contains no array at all may be without a text**: it holds an error whose name
is the error itself. -/
theorem Run.array_contents_endless :
    let ms : List (Move Unit) := [.perform (.newObject (.error "Error" "")),
      .perform (.setProperty ⟨0⟩ "name" (.object ⟨0⟩)),
      .perform (.newObject (.ofList [.object ⟨0⟩]))]
    let e := (({} : World Unit).after ms).config.engine
    Run (({} : World Unit).events ms) (({} : World Unit).after ms) ∧
      e.object ⟨1⟩ = .ofList [.object ⟨0⟩] ∧
      (∀ a, e.Regress (.object ⟨1⟩) a → (e.object a).isArray = false) ∧
      e.text? (.object ⟨1⟩) = none := by
  intro ms e
  have hrun : Run (({} : World Unit).events ms) (({} : World Unit).after ms) :=
    World.steps_after (by decide +kernel)
  -- no array is a part of anything in the store
  have hparts : ∀ i < 2, (e.object ⟨i⟩).isArray = true →
      ∀ j < 2, .object ⟨i⟩ ∉ e.parts (.object ⟨j⟩) := by decide +kernel
  refine ⟨hrun, by decide +kernel, fun a ha => Bool.eq_false_iff.2 fun harray => ?_,
    by decide +kernel⟩
  obtain ⟨v, hv, -⟩ := Relation.TransGen.head'_iff.1 ha.itself
  obtain ⟨u, rfl, hkind⟩ := hv.owner
  exact hparts a.index (Engine.index_lt_of_kind (.inl harray)) harray u.index
    (Engine.index_lt_of_kind hkind) hv

end Microtask
