import Mathlib.Data.List.Nodup
import Microtask.Proofs.Stepwise

/-!
# Chains of adoptions

A promise that adopts another one is linked to it. From every promise the links
lead to an end (`Engine.Grounded`): a link is only made to a promise whose chain
does not contain the one that is linked, and a promise that settles loses its
link. So the walk along a chain that is bounded by the number of promises is long
enough to see all of it (`Engine.Ends.chain_eq`).

Main statement: `Run.grounded`.
-/

namespace Microtask

variable {H : Type}

namespace Engine

/-! ## Chains that end -/

/-- The promises on the way from a promise to the end of its chain. -/
inductive Ends (e : Engine H) : PromiseRef → List PromiseRef → Prop where
  | stop {p : PromiseRef} : (e.promise p).following = none → Ends e p [p]
  | link {p q : PromiseRef} {ps : List PromiseRef} :
      (e.promise p).following = some q → Ends e q ps → Ends e p (p :: ps)

/-- Every chain ends. -/
def Grounded (e : Engine H) : Prop := ∀ p, ∃ ps, e.Ends p ps

variable {e e' : Engine H} {p q : PromiseRef} {ps : List PromiseRef}

namespace Ends

theorem unique {ps' : List PromiseRef} (h : e.Ends p ps) (h' : e.Ends p ps') : ps = ps' := by
  induction h generalizing ps' with
  | stop hp =>
    cases h' with
    | stop => rfl
    | link hp' => rw [hp] at hp'; cases hp'
  | link hp _ ih =>
    cases h' with
    | stop hp' => rw [hp] at hp'; cases hp'
    | link hp' h' =>
      rw [hp] at hp'
      cases hp'
      rw [ih h']

/-- The chain from a promise on the way. -/
theorem suffix (h : e.Ends p ps) {x : PromiseRef} (hx : x ∈ ps) :
    ∃ xs, e.Ends x xs ∧ xs <:+ ps := by
  induction h with
  | stop hp =>
    obtain rfl := List.mem_singleton.1 hx
    exact ⟨_, .stop hp, List.suffix_rfl⟩
  | link hp h ih =>
    rcases List.mem_cons.1 hx with rfl | hx
    · exact ⟨_, .link hp h, List.suffix_rfl⟩
    · obtain ⟨xs, hxs, hs⟩ := ih hx
      exact ⟨xs, hxs, hs.trans (List.suffix_cons _ _)⟩

/-- No promise occurs twice. -/
theorem nodup (h : e.Ends p ps) : ps.Nodup := by
  induction h with
  | stop => exact List.nodup_singleton _
  | @link p q ps hp h ih =>
    refine List.nodup_cons.2 ⟨fun hmem => ?_, ih⟩
    obtain ⟨xs, hxs, hs⟩ := h.suffix hmem
    have heq : xs = p :: ps := hxs.unique (.link hp h)
    have hlen := hs.length_le
    rw [heq, List.length_cons] at hlen
    omega

theorem ne_nil (h : e.Ends p ps) : ps ≠ [] := by
  cases h <;> exact List.cons_ne_nil _ _

/-- All promises on the way but the last one are linked, and so they exist. -/
theorem linked (h : e.Ends p ps) {x : PromiseRef} (hx : x ∈ ps.dropLast) :
    x.index < e.promises.size := by
  induction h with
  | stop => cases hx
  | link hp h ih =>
    rw [List.dropLast_cons_of_ne_nil h.ne_nil] at hx
    rcases List.mem_cons.1 hx with rfl | hx
    · refine Nat.lt_of_not_le fun hle => ?_
      rw [promise_of_size_le hle] at hp
      cases hp
    · exact ih hx

/-- A chain has no more links than there are promises. -/
theorem length_le (h : e.Ends p ps) : ps.length ≤ e.promises.size + 1 := by
  have hnodup : (ps.dropLast.map PromiseRef.index).Nodup :=
    (h.nodup.sublist (List.dropLast_sublist ps)).map fun x y => PromiseRef.index_inj.1
  have hsub : ps.dropLast.map PromiseRef.index ⊆ List.range e.promises.size := by
    intro i hi
    obtain ⟨x, hx, rfl⟩ := List.mem_map.1 hi
    exact List.mem_range.2 (h.linked hx)
  have hle := hnodup.length_le_of_subset hsub
  rw [List.length_map, List.length_dropLast, List.length_range] at hle
  omega

theorem chainWithin_eq (h : e.Ends p ps) {n : Nat} (hn : ps.length ≤ n + 1) :
    e.chainWithin n p = ps := by
  induction h generalizing n with
  | stop hp =>
    cases n with
    | zero => rfl
    | succ n => rw [chainWithin, hp]
  | link hp h ih =>
    cases n with
    | zero =>
      have hpos := List.length_pos_iff.2 h.ne_nil
      rw [List.length_cons] at hn
      omega
    | succ n =>
      rw [List.length_cons] at hn
      rw [chainWithin, hp]
      simp only [ih (by omega : _ ≤ n + 1)]

/-- **The bounded walk sees the whole chain.** -/
theorem chain_eq (h : e.Ends p ps) : e.chain p = ps := h.chainWithin_eq h.length_le

/-- A chain on which no link has changed. -/
theorem congr (h : e.Ends p ps)
    (hf : ∀ x ∈ ps, (e'.promise x).following = (e.promise x).following) : e'.Ends p ps := by
  induction h with
  | stop hp => exact .stop ((hf _ List.mem_cons_self).trans hp)
  | link hp h ih =>
    exact .link ((hf _ List.mem_cons_self).trans hp) (ih fun x hx => hf x (List.mem_cons_of_mem _ hx))

end Ends

/-! ## Links that are made and lost -/

/-- Links that get lost leave shorter chains. -/
theorem Grounded.of_following (h : e.Grounded)
    (hf : ∀ p, (e'.promise p).following = (e.promise p).following ∨
      (e'.promise p).following = none) : e'.Grounded := by
  intro p
  obtain ⟨ps, hps⟩ := h p
  induction hps with
  | @stop p hp =>
    refine ⟨[p], .stop ?_⟩
    rcases hf p with hp' | hp'
    · exact hp'.trans hp
    · exact hp'
  | @link p q ps hp h ih =>
    rcases hf p with hp' | hp'
    · obtain ⟨qs, hqs⟩ := ih
      exact ⟨p :: qs, .link (hp'.trans hp) hqs⟩
    · exact ⟨[p], .stop hp'⟩

/-- A new link that closes no cycle. -/
theorem Grounded.link (h : e.Grounded) (hc : e.closesCycle p q = false) :
    (e.link p q).Grounded := by
  have hf : ∀ x, x ≠ p → ((e.link p q).promise x).following = (e.promise x).following := by
    intro x hx
    rw [promise_link, if_neg hx]
  have hp : ((e.link p q).promise p).following = some q := by rw [promise_link, if_pos rfl]
  obtain ⟨qs, hqs⟩ := h q
  have hnot : p ∉ qs := by
    rw [closesCycle, hqs.chain_eq] at hc
    exact of_decide_eq_false hc
  have hq : (e.link p q).Ends q qs := hqs.congr fun x hx => hf x fun heq => hnot (heq ▸ hx)
  intro x
  obtain ⟨xs, hxs⟩ := h x
  induction hxs with
  | @stop x hx =>
    by_cases heq : x = p
    · exact ⟨x :: qs, .link (heq ▸ hp) hq⟩
    · exact ⟨[x], .stop ((hf x heq).trans hx)⟩
  | @link x y ys hx _ ih =>
    by_cases heq : x = p
    · exact ⟨x :: qs, .link (heq ▸ hp) hq⟩
    · obtain ⟨ys', hys⟩ := ih
      exact ⟨x :: ys', .link ((hf x heq).trans hx) hys⟩

theorem Grounded.fate (h : e.Grounded) (hf : Fate p e e') : e'.Grounded := by
  cases hf with
  | settled kind v =>
    by_cases hs : (e.promise p).state = .pending
    · refine h.of_following fun x => ?_
      rw [promise_settleNow hs]
      split
      · exact .inr rfl
      · exact .inl rfl
    · rw [settleNow_of_settled hs]
      exact h
  | adopts hc => exact h.link hc

theorem Grounded.performThen (h : e.Grounded) (p : PromiseRef) (f g : Option FunctionRef)
    (capability : Option PromiseRef) : (e.performThen p f g capability).Grounded :=
  h.of_following fun x =>
    .inl (read_performThen e p f g capability Promise.following (fun _ _ _ => rfl) x)

theorem Grounded.newPromise (h : e.Grounded) : e.newPromise.2.Grounded := by
  refine h.of_following fun x => ?_
  rw [promise_newPromise]
  split
  · exact .inr rfl
  · exact .inl rfl

theorem Grounded.same (h : e.Grounded) (hp : e'.promises = e.promises) : e'.Grounded := by
  refine h.of_following fun x => .inl ?_
  rw [promise, promise, hp]

theorem Grounded.lock (h : e.Grounded) (p : PromiseRef) : (e.lock p).Grounded :=
  h.of_following fun x => .inl (read_lock Promise.following (fun _ => rfl) e p x)

theorem Grounded.effect {R : Rights} (h : e.Grounded) (he : Effect R e e') : e'.Grounded := by
  cases he with
  | aside ha => exact h.same ha.promises
  | newPromise => exact h.newPromise
  | newFunction hc => exact h.same rfl
  | spend hf => exact h.same rfl
  | @decide _ p hr hR hf => exact (h.lock p).fate hf
  | performThen p hf hg hc => exact h.performThen p _ _ _
  | callback label code => exact h.same rfl

theorem Grounded.effects {R : Rights} (h : e.Grounded) (he : Effects R e e') : e'.Grounded := by
  induction he with
  | refl => exact h
  | tail _ he ih => exact ih.effect he

theorem Grounded.used (h : e.Grounded) (f : FunctionRef) : (e.used f).Grounded := by
  unfold Engine.used
  split <;> exact h.same rfl

theorem Grounded.engage (h : e.Grounded) (q : PromiseRef) (c d : Callable H) :
    (e.engage q c d).Grounded := by
  have hnew : ((e.newFunction c).2.newFunction d).2.Grounded := h.same rfl
  exact hnew.performThen q _ _ _

end Engine

/-! ## Acts and runs -/

theorem Act.grounded {R : Rights} {l l' : Ledger H} (h : Act R l l') (hl : l.engine.Grounded) :
    l'.engine.Grounded := by
  cases h with
  | effect he => exact hl.effect he
  | @attach id p q jobs hpop =>
    have hj : Engine.Grounded { l.engine with jobs } := hl.same rfl
    exact hj.engage q _ _
  | adopt hf hc hu ha hfate => exact ((hl.used _).same ha.promises).fate hfate
  | wake hf he hd hu => exact hl.used _
  | engage hs hd => exact hl.engage _ _ _
  | request a c hr hs => exact hl.newPromise.same rfl
  | @answer a r rest s kind v hs ha hb hv =>
    have hs : (l.engine.setAsyncState a s).Grounded := hl.same rfl
    exact hs.effects (Engine.settle_effects (R := Rights.all) (fun _ => trivial) kind v)
  | _ => exact hl.same rfl

theorem Step.grounded {w w' : World H} {m : Move H} (h : Step w m w')
    (hbacked : w.config.engine.Backed) (hw : w.config.engine.Grounded) :
    w'.config.engine.Grounded := by
  cases hm : m.clears with
  | false =>
    exact (h.acts hm (Rights.all_covers w m) hbacked []).preserve (P := fun l => l.engine.Grounded)
      (fun ha => ha.grounded) hw
  | true =>
    obtain ⟨e, hl, he, -, -⟩ := h.clears hm []
    have hengine : w'.config.engine = e := congrArg Ledger.engine hl
    rw [hengine]
    exact hw.same he.promises

/-- **No chain of adoptions ever closes.** -/
theorem Run.grounded {es : List (Event H)} {w : World H} (h : Run es w) :
    w.config.engine.Grounded := by
  have hboth : w.config.engine.Backed ∧ w.config.engine.Grounded := by
    refine h.preserve (P := fun w => w.config.engine.Backed ∧ w.config.engine.Grounded)
      (fun hs hw => ⟨hs.backed hw.1, hs.grounded hw.1 hw.2⟩)
      ⟨Run.backed .refl, fun p => ⟨[p], .stop ?_⟩⟩
    have hnew : ({} : World H).config.engine.promise p = {} :=
      Engine.promise_of_size_le (Nat.zero_le _)
    rw [hnew]
  exact hboth.2

end Microtask
