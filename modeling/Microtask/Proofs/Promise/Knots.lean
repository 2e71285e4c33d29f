import Mathlib.Data.Fintype.Pigeonhole
import Mathlib.Order.Lattice.Nat
import Mathlib.Logic.Relation
import Mathlib.Order.Lattice
import Microtask.Proofs.Access

/-!
# Knots

A promise that is fulfilled rather than resolved may have a promise as its value.
That is not an adoption: no link is recorded, and no search for a cycle sees it.
But a promise that adopts the first one is resolved with the second one next, and
so on along the values (`Wraps`).

A promise is knotted if its values lead into a cycle. From any other one only so
many values can be unwrapped, and their number is a rank that goes down from each
promise to its value (`exists_rank`).
-/

namespace Microtask.Engine

variable {H : Type} {e : Engine H} {p q : PromiseRef} {n : Nat}

/-- The first promise is fulfilled with the second one. -/
def Wraps (e : Engine H) (p q : PromiseRef) : Prop := (e.promise p).state = .fulfilled (.promise q)

/-- The values of fulfilled promises lead from the promise into a cycle. -/
def Knotted (e : Engine H) (p : PromiseRef) : Prop :=
  ∃ q, Relation.ReflTransGen e.Wraps p q ∧ Relation.TransGen e.Wraps q q

theorem Wraps.unique {q' : PromiseRef} (h : e.Wraps p q) (h' : e.Wraps p q') : q = q' := by
  simpa using h.symm.trans h'

/-- A knotted promise is fulfilled with a promise, and that one is knotted too. -/
theorem Knotted.wraps (h : e.Knotted p) : ∃ q, e.Wraps p q ∧ e.Knotted q := by
  obtain ⟨x, hx, hcycle⟩ := h
  rcases hx.cases_head with rfl | ⟨y, hy, hyx⟩
  · obtain ⟨y, hy, hback⟩ := Relation.TransGen.head'_iff.1 hcycle
    exact ⟨y, hy, p, hback, hcycle⟩
  · exact ⟨y, hy, x, hyx, hcycle⟩

theorem Wraps.lt_size (h : e.Wraps p q) : p.index < e.promises.size := by
  refine Nat.lt_of_not_le fun hle => ?_
  rw [Wraps, promise_of_size_le hle] at h
  cases h

/-! ## Unwrapping -/

/-- The promise that a promise is fulfilled with. -/
def wrapped? (e : Engine H) (p : PromiseRef) : Option PromiseRef :=
  match (e.promise p).state with
  | .fulfilled v => v.asPromise?
  | _ => none

theorem wrapped?_eq_some : e.wrapped? p = some q ↔ e.Wraps p q := by
  unfold wrapped? Wraps
  cases (e.promise p).state with
  | fulfilled v => cases v <;> simp [Value.asPromise?]
  | _ => simp

/-- Go on from a promise to its value, the given number of times. -/
def unwrap (e : Engine H) : Nat → PromiseRef → Option PromiseRef
  | 0, p => some p
  | n + 1, p => (e.wrapped? p).bind (e.unwrap n)

theorem unwrap_succ_of_wraps (h : e.Wraps p q) (n : Nat) :
    e.unwrap (n + 1) p = e.unwrap n q := by
  rw [unwrap, wrapped?_eq_some.2 h]
  rfl

theorem unwrap_add (m n : Nat) (p : PromiseRef) :
    e.unwrap (m + n) p = (e.unwrap m p).bind (e.unwrap n) := by
  induction m generalizing p with
  | zero => simp [unwrap]
  | succ m ih =>
    rw [Nat.succ_add, unwrap, unwrap, Option.bind_assoc]
    exact Option.bind_congr fun q _ => ih q

theorem reflTransGen_of_unwrap (h : e.unwrap n p = some q) :
    Relation.ReflTransGen e.Wraps p q := by
  induction n generalizing p with
  | zero =>
    obtain rfl : p = q := Option.some.inj h
    exact .refl
  | succ n ih =>
    obtain ⟨x, hx, hq⟩ := Option.bind_eq_some_iff.1 h
    exact .head (wrapped?_eq_some.1 hx) (ih hq)

theorem transGen_of_unwrap (h : e.unwrap (n + 1) p = some q) :
    Relation.TransGen e.Wraps p q := by
  obtain ⟨x, hx, hq⟩ := Option.bind_eq_some_iff.1 h
  exact .head' (wrapped?_eq_some.1 hx) (reflTransGen_of_unwrap hq)

/-- There are only so many promises, and so one that can be unwrapped for ever comes
back to where it was. -/
theorem knotted_of_unwrap (h : ∀ n, e.unwrap n p ≠ none) : e.Knotted p := by
  choose at_ hat using fun n => Option.ne_none_iff_exists'.1 (h n)
  have hlt : ∀ n, (at_ n).index < e.promises.size := by
    intro n
    have hnext : (e.unwrap n p).bind (e.unwrap 1) = some (at_ (n + 1)) := by
      rw [← unwrap_add, hat]
    rw [hat n, Option.bind_some] at hnext
    obtain ⟨x, hx, -⟩ := Option.bind_eq_some_iff.1 hnext
    exact (wrapped?_eq_some.1 hx).lt_size
  obtain ⟨i, j, hne, heq⟩ := Finite.exists_ne_map_eq_of_infinite
    fun n => (⟨(at_ n).index, hlt n⟩ : Fin e.promises.size)
  have hsame : at_ i = at_ j := PromiseRef.index_inj.1 (Fin.mk.inj heq)
  have hcycle : ∀ i j, i < j → at_ i = at_ j → Relation.TransGen e.Wraps (at_ i) (at_ i) := by
    intro i j hij hsame
    obtain ⟨k, rfl⟩ := Nat.exists_eq_add_of_lt hij
    have hround : (e.unwrap i p).bind (e.unwrap (k + 1)) = some (at_ (i + k + 1)) := by
      rw [← unwrap_add, ← Nat.add_assoc, hat]
    rw [hat i, Option.bind_some, ← hsame] at hround
    exact transGen_of_unwrap hround
  rcases Nat.lt_or_gt_of_ne hne with hij | hji
  · exact ⟨at_ i, reflTransGen_of_unwrap (hat i), hcycle i j hij hsame⟩
  · exact ⟨at_ j, reflTransGen_of_unwrap (hat j), hcycle j i hji hsame.symm⟩

/-! ## Ranks -/

/-- Bounds for each of finitely many cases are bounded together. -/
theorem exists_uniform {P : Nat → Nat → Prop} (hmono : ∀ i {m n}, m ≤ n → P i m → P i n)
    (h : ∀ i, ∃ n, P i n) (size : Nat) : ∃ n, ∀ i < size, P i n := by
  choose bound hbound using h
  induction size with
  | zero => exact ⟨0, fun i hi => absurd hi (Nat.not_lt_zero i)⟩
  | succ size ih =>
    obtain ⟨n, hn⟩ := ih
    refine ⟨max n (bound size), fun i hi => ?_⟩
    rcases Nat.lt_succ_iff_lt_or_eq.1 hi with hi | rfl
    · exact hmono i (le_max_left _ _) (hn i hi)
    · exact hmono i (le_max_right _ _) (hbound i)

/-- Unless a promise is knotted, its value has a smaller rank. -/
theorem exists_rank (e : Engine H) : ∃ (rank : PromiseRef → Nat) (top : Nat),
    (∀ p, rank p ≤ top) ∧ ∀ p q, ¬ e.Knotted p → e.Wraps p q → rank q < rank p := by
  let rank : PromiseRef → Nat := fun p => sInf {n | e.unwrap n p = none}
  obtain ⟨top, htop⟩ := exists_uniform (P := fun i n => rank ⟨i⟩ ≤ n)
    (fun i _ _ hmn h => h.trans hmn) (fun i => ⟨_, le_rfl⟩) e.promises.size
  refine ⟨rank, max top 1, fun p => ?_, fun p q hp hpq => ?_⟩
  · by_cases hlt : p.index < e.promises.size
    · exact (htop p.index hlt).trans (le_max_left _ _)
    · -- a promise that does not exist yet has no value
      refine (Nat.sInf_le ?_).trans (le_max_right _ _)
      show (e.wrapped? p).bind (e.unwrap 0) = none
      rw [wrapped?, promise_of_size_le (Nat.le_of_not_lt hlt)]
      rfl
  · have hends : ∃ n, e.unwrap n p = none := by
      by_contra hforever
      exact hp (knotted_of_unwrap fun n hn => hforever ⟨n, hn⟩)
    have hrank : e.unwrap (rank p) p = none := Nat.sInf_mem (s := {n | e.unwrap n p = none}) hends
    cases hr : rank p with
    | zero =>
      rw [hr] at hrank
      cases hrank
    | succ n =>
      rw [hr, unwrap_succ_of_wraps hpq] at hrank
      exact Nat.lt_succ_of_le (Nat.sInf_le hrank)

end Microtask.Engine
