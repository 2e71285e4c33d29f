import Microtask.Value.Text
import Mathlib.Data.Finset.Card
import Mathlib.Logic.Relation

/-!
# The texts within a text

The text of an array or of an error is made of the texts of other values, its `parts`. Going from
texts to the texts within them comes to an end (`Engine.HasText`) unless something within contains
itself (`Engine.hasText_iff`). The texts of the model go down to a bounded depth, and there are
none below. The bound does not show: a value has a text exactly if going down comes to an end
(`Engine.isSome_text?_iff`), and the text of an array is that of its elements, with commas in
between (`Engine.text?_array`).
-/

namespace Microtask

variable {H : Type}

/-- The values that the text of an array shows. -/
def Object.shown (x : Object) : List Value :=
  (x.properties.filter fun (key, _) => key ≠ "length").map (·.2)

namespace Engine

/-! ## Parts -/

/-- The values whose texts the text of a value is made of. -/
def parts (e : Engine H) : Value → List Value
  | .object o =>
    if (e.object o).isArray then (e.object o).shown
    else if (e.object o).isError then
      ((e.object o).get? "name").toList ++ ((e.object o).get? "message").toList
    else []
  | _ => []

/-- The text of the second value is made with that of the first. -/
def PartOf (e : Engine H) (u v : Value) : Prop := u ∈ e.parts v

/-- The text of the value can be written down: going from texts to the texts within ends. -/
def HasText (e : Engine H) (v : Value) : Prop := Acc e.PartOf v

/-- In the text of the value an object shows up that contains itself. -/
structure Regress (e : Engine H) (v : Value) (o : ObjectRef) : Prop where
  within : Relation.ReflTransGen e.PartOf (.object o) v
  itself : Relation.TransGen e.PartOf (.object o) (.object o)

/-- The text of a value among the elements of an array, unless there are nested objects below the
given depth. -/
def elementTextWithin? (e : Engine H) (depth : Nat) : Value → Option String
  | .undefined | .null => some ""
  | v => e.textWithin? depth v

/-- The text of a value among the elements of an array. -/
def elementText (e : Engine H) : Value → String
  | .undefined | .null => ""
  | v => e.text v

variable {e : Engine H} {u v : Value} {o : ObjectRef}

theorem parts_array (h : (e.object o).isArray = true) :
    e.parts (.object o) = (e.object o).shown := if_pos h

theorem partOf_array (h : (e.object o).isArray = true) :
    e.PartOf u (.object o) ↔ u ∈ (e.object o).shown := by
  rw [PartOf, parts_array h]

/-- The parts of an error are its name and its message. -/
theorem partOf_error (h : (e.object o).isArray = false) (h' : (e.object o).isError = true) :
    e.PartOf u (.object o) ↔
      ∃ key, (key = "name" ∨ key = "message") ∧ (e.object o).get? key = some u := by
  simp [PartOf, parts, h, h']

/-- An array or an error is in the store. -/
theorem index_lt_of_kind (h : (e.object o).isArray = true ∨ (e.object o).isError = true) :
    o.index < e.objects.size := by
  by_contra hle
  rw [object, Store.get_of_size_le (Nat.le_of_not_lt hle)] at h
  exact h.elim Bool.noConfusion Bool.noConfusion

/-- Only an array or an error has parts. -/
theorem PartOf.owner (h : e.PartOf u v) : ∃ o : ObjectRef, v = .object o ∧
    ((e.object o).isArray = true ∨ (e.object o).isError = true) := by
  cases v with
  | object o =>
    refine ⟨o, rfl, ?_⟩
    by_contra hnone
    rw [not_or, Bool.not_eq_true, Bool.not_eq_true] at hnone
    simp [PartOf, parts, hnone.1, hnone.2] at h
  | _ => cases h

/-- What contains something that contains itself is an array or an error. -/
theorem Regress.kind (h : e.Regress v o) :
    (e.object o).isArray = true ∨ (e.object o).isError = true := by
  obtain ⟨u, hu⟩ : ∃ u, e.PartOf u (.object o) := by
    cases h.itself with
    | single h => exact ⟨_, h⟩
    | tail _ h => exact ⟨_, h⟩
  obtain ⟨o', heq, hkind⟩ := hu.owner
  cases heq
  exact hkind

/-! ## One level -/

theorem elementTextWithin?_congr {depth depth' : Nat}
    (h : e.textWithin? depth v = e.textWithin? depth' v) :
    e.elementTextWithin? depth v = e.elementTextWithin? depth' v := by
  cases v <;> first | rfl | exact h

theorem isSome_elementTextWithin? {depth : Nat} :
    (e.elementTextWithin? depth v).isSome ↔ (e.textWithin? depth v).isSome := by
  cases v <;> first | rfl | (cases depth <;> exact ⟨fun _ => rfl, fun _ => rfl⟩)

/-- The text of an array with a bound on the depth. -/
theorem textWithin?_array (h : (e.object o).isArray = true) (depth : Nat) :
    e.textWithin? (depth + 1) (.object o) =
      (((e.object o).shown.map (e.elementTextWithin? depth)).mapM id).map fun texts =>
        ",".intercalate texts := by
  rw [textWithin?, if_pos h, Object.shown, List.map_map, List.mapM_map]
  rfl

/-- The text of an error with a bound on the depth. -/
theorem textWithin?_error (h : (e.object o).isArray = false) (h' : (e.object o).isError = true)
    (depth : Nat) :
    e.textWithin? (depth + 1) (.object o) =
      match ((e.object o).get? "name").elim (some "Error") (e.textWithin? depth),
        ((e.object o).get? "message").elim (some "") (e.textWithin? depth) with
      | some name, some message =>
        some (if message.isEmpty then name else name ++ ": " ++ message)
      | _, _ => none := by
  rw [textWithin?]
  exact (if_neg (Bool.not_eq_true _ ▸ h)).trans (if_pos h')

/-- A text depends on the depth by way of the texts within. -/
theorem textWithin?_congr {depth depth' : Nat}
    (h : ∀ u, e.PartOf u v → e.textWithin? depth u = e.textWithin? depth' u) :
    e.textWithin? (depth + 1) v = e.textWithin? (depth' + 1) v := by
  cases v with
  | object o =>
    cases ha : (e.object o).isArray with
    | true =>
      rw [textWithin?_array ha, textWithin?_array ha]
      congr 2
      exact List.map_congr_left fun u hu =>
        elementTextWithin?_congr (h u ((partOf_array ha).2 hu))
    | false =>
      cases herror : (e.object o).isError with
      | true =>
        have hkey : ∀ key, (key = "name" ∨ key = "message") → ∀ default : Option String,
            ((e.object o).get? key).elim default (e.textWithin? depth) =
              ((e.object o).get? key).elim default (e.textWithin? depth') := by
          intro key hkey default
          cases hu : (e.object o).get? key with
          | none => rfl
          | some u => exact h u ((partOf_error ha herror).2 ⟨key, hkey, hu⟩)
        rw [textWithin?_error ha herror, textWithin?_error ha herror, hkey "name" (.inl rfl),
          hkey "message" (.inr rfl)]
      | false => simp only [textWithin?, ha, herror, Bool.false_eq_true, if_false]
  | _ => rfl

theorem isSome_mapM_id {l : List (Option String)} : (l.mapM id).isSome ↔ ∀ x ∈ l, x.isSome := by
  induction l with
  | nil => simp
  | cons x l ih =>
    rw [List.mapM_cons, List.forall_mem_cons, ← ih]
    cases x <;> cases l.mapM id <;> simp

/-- There is a text with one more level exactly if there is one of every part. -/
theorem isSome_textWithin?_succ {depth : Nat} :
    (e.textWithin? (depth + 1) v).isSome ↔ ∀ u ∈ e.parts v, (e.textWithin? depth u).isSome := by
  cases v with
  | object o =>
    cases ha : (e.object o).isArray with
    | true =>
      rw [textWithin?_array ha, Option.isSome_map, isSome_mapM_id, List.forall_mem_map,
        parts_array ha]
      exact forall₂_congr fun u _ => isSome_elementTextWithin?
    | false =>
      cases herror : (e.object o).isError with
      | true =>
        have helim : ∀ (x : Option Value) (s : String),
            (x.elim (some s) (e.textWithin? depth)).isSome ↔
              ∀ u ∈ x.toList, (e.textWithin? depth u).isSome := by
          rintro (_ | u) s <;> simp
        have hparts : e.parts (.object o) =
            ((e.object o).get? "name").toList ++ ((e.object o).get? "message").toList := by
          simp [parts, ha, herror]
        rw [textWithin?_error ha herror, hparts, List.forall_mem_append, ← helim _ "Error",
          ← helim _ ""]
        cases ((e.object o).get? "name").elim (some "Error") (e.textWithin? depth) <;>
          cases ((e.object o).get? "message").elim (some "") (e.textWithin? depth) <;> simp
      | false => simp [textWithin?, parts, ha, herror]
  | _ => simp [textWithin?, parts]

/-! ## Values that have a text -/

/-- A value has a text exactly if all its parts have one. -/
theorem hasText_iff_parts : e.HasText v ↔ ∀ u ∈ e.parts v, e.HasText u :=
  ⟨fun h _ hu => h.inv hu, fun h => .intro v h⟩

theorem HasText.irrefl (h : e.HasText v) : ¬ Relation.TransGen e.PartOf v v := by
  have hacc : Acc (Relation.TransGen e.PartOf) v := h.transGen
  clear h
  induction hacc with
  | intro v _ ih => exact fun hself => ih v hself hself

theorem HasText.of_within (h : e.HasText v) (hu : Relation.ReflTransGen e.PartOf u v) :
    e.HasText u := by
  induction hu with
  | refl => exact h
  | tail _ hpart ih => exact ih (h.inv hpart)

open Classical in
/-- The objects of the store that the text of a value shows. -/
noncomputable def objectsIn (e : Engine H) (v : Value) : Finset Nat :=
  (Finset.range e.objects.size).filter fun i => Relation.ReflTransGen e.PartOf (.object ⟨i⟩) v

theorem mem_objectsIn {i : Nat} : i ∈ e.objectsIn v ↔
    i < e.objects.size ∧ Relation.ReflTransGen e.PartOf (.object ⟨i⟩) v := by
  simp only [objectsIn, Finset.mem_filter, Finset.mem_range]

theorem card_objectsIn_le : (e.objectsIn v).card ≤ e.objects.size := by
  have hsubset : e.objectsIn v ⊆ Finset.range e.objects.size := fun i hi =>
    Finset.mem_range.2 (mem_objectsIn.1 hi).1
  exact (Finset.card_le_card hsubset).trans_eq (Finset.card_range _)

/-- A part shows fewer objects than the whole, which is not within it. -/
theorem card_objectsIn_lt (hv : ¬ Relation.TransGen e.PartOf v v) (hu : e.PartOf u v) :
    (e.objectsIn u).card < (e.objectsIn v).card := by
  obtain ⟨o, rfl, hkind⟩ := hu.owner
  have hsubset : e.objectsIn u ⊆ e.objectsIn (.object o) := fun i hi => by
    obtain ⟨hlt, hwithin⟩ := mem_objectsIn.1 hi
    exact mem_objectsIn.2 ⟨hlt, hwithin.tail hu⟩
  have hwhole : o.index ∈ e.objectsIn (.object o) :=
    mem_objectsIn.2 ⟨index_lt_of_kind hkind, .refl⟩
  have hpart : o.index ∉ e.objectsIn u := fun hmem =>
    hv (.tail' (mem_objectsIn.1 hmem).2 hu)
  exact Finset.card_lt_card ((Finset.ssubset_iff_of_subset hsubset).2 ⟨_, hwhole, hpart⟩)

/-- **A value has a text unless something in it contains itself.** -/
theorem hasText_iff : e.HasText v ↔ ∀ o, ¬ e.Regress v o := by
  refine ⟨fun h o hregress => (h.of_within hregress.within).irrefl hregress.itself, fun h => ?_⟩
  -- on the number of objects in the text, which is smaller for a part than for the whole
  induction hn : (e.objectsIn v).card using Nat.strong_induction_on generalizing v with
  | _ n ih =>
    refine Acc.intro v fun u hu => ?_
    have hself : ¬ Relation.TransGen e.PartOf v v := by
      obtain ⟨o, rfl, -⟩ := hu.owner
      exact fun hself => h o ⟨.refl, hself⟩
    refine ih _ (hn ▸ card_objectsIn_lt hself hu) (fun o hregress => ?_) rfl
    exact h o ⟨hregress.within.tail hu, hregress.itself⟩

/-- **The bound on the depth does not show** as soon as there is one level more than there are
objects in the text. -/
theorem textWithin?_eq (h : e.HasText v) {depth depth' : Nat} (hd : (e.objectsIn v).card < depth)
    (hd' : (e.objectsIn v).card < depth') : e.textWithin? depth v = e.textWithin? depth' v := by
  induction h generalizing depth depth' with
  | intro v hparts ih =>
    obtain ⟨depth, rfl⟩ := Nat.exists_eq_succ_of_ne_zero (Nat.ne_zero_of_lt hd)
    obtain ⟨depth', rfl⟩ := Nat.exists_eq_succ_of_ne_zero (Nat.ne_zero_of_lt hd')
    refine textWithin?_congr fun u hu => ?_
    have hlt := card_objectsIn_lt (HasText.irrefl (Acc.intro v hparts)) hu
    exact ih u hu (by omega) (by omega)

theorem HasText.isSome_textWithin? (h : e.HasText v) {depth : Nat}
    (hd : (e.objectsIn v).card < depth) : (e.textWithin? depth v).isSome := by
  induction h generalizing depth with
  | intro v hparts ih =>
    obtain ⟨depth, rfl⟩ := Nat.exists_eq_succ_of_ne_zero (Nat.ne_zero_of_lt hd)
    refine isSome_textWithin?_succ.2 fun u hu => ?_
    have hlt := card_objectsIn_lt (HasText.irrefl (Acc.intro v hparts)) hu
    exact ih u hu (by omega)

theorem HasText.of_isSome {depth : Nat} (h : (e.textWithin? depth v).isSome) : e.HasText v := by
  induction depth generalizing v with
  | zero =>
    cases v with
    | object o => cases h
    | _ => exact hasText_iff_parts.2 (List.forall_mem_nil _)
  | succ depth ih =>
    exact hasText_iff_parts.2 fun u hu => ih (isSome_textWithin?_succ.1 h u hu)

/-- **A value has a text** exactly if going down from texts to the texts within ends. -/
theorem isSome_text?_iff : (e.text? v).isSome ↔ e.HasText v :=
  ⟨HasText.of_isSome, fun h => h.isSome_textWithin? (Nat.lt_succ_of_le card_objectsIn_le)⟩

theorem HasText.text?_eq (h : e.HasText v) : e.text? v = some (e.text v) := by
  obtain ⟨s, hs⟩ := Option.isSome_iff_exists.1 (isSome_text?_iff.2 h)
  rw [text, hs, Option.getD_some]

theorem HasText.elementTextWithin?_eq (h : e.HasText v) {depth : Nat}
    (hd : (e.objectsIn v).card < depth) :
    e.elementTextWithin? depth v = some (e.elementText v) := by
  have htext : e.textWithin? depth v = some (e.text v) :=
    (textWithin?_eq h hd (Nat.lt_succ_of_le card_objectsIn_le)).trans h.text?_eq
  cases v <;> first | rfl | exact htext

/-- The text of an array that has one is that of its elements, with commas in between. -/
theorem text?_array (h : e.HasText (.object o)) (ha : (e.object o).isArray = true) :
    e.text? (.object o) = some (",".intercalate ((e.object o).shown.map e.elementText)) := by
  have helements : (e.object o).shown.map (e.elementTextWithin? e.objects.size) =
      (e.object o).shown.map fun u => some (e.elementText u) := by
    refine List.map_congr_left fun u hu => ?_
    have hpart : e.PartOf u (.object o) := (partOf_array ha).2 hu
    have hlt := card_objectsIn_lt h.irrefl hpart
    exact HasText.elementTextWithin?_eq (h.inv hpart) (hlt.trans_le card_objectsIn_le)
  have htexts : ((e.object o).shown.map fun u => some (e.elementText u)).mapM id =
      some ((e.object o).shown.map e.elementText) := by
    rw [List.mapM_map]
    exact List.mapM_pure
  rw [text?, textWithin?_array ha, helements, htexts, Option.map_some]

/-- An array has a text exactly if all its elements have one. -/
theorem hasText_array (ha : (e.object o).isArray = true) :
    e.HasText (.object o) ↔ ∀ u ∈ (e.object o).shown, e.HasText u := by
  rw [hasText_iff_parts, parts_array ha]

end Engine

end Microtask
