import Microtask.Proofs.Generator.Turns
import Microtask.Proofs.Generator.Flight

/-!
# Steps that pass a generator by

A move drives the generators whose steps it begins or ends. To all others a step does
nothing: their records stay what they are, and as many steps of them are under way as
before (`Stage.Changes.count_eq`). Likewise a duty that the move is not about is owed as
before (`Act.passes`).

Main statement: `Step.passes`.
-/

namespace Microtask

variable {H : Type}

/-! ## On the stage -/

namespace Stage

variable {D L P : GeneratorRef → Prop} {s s' : Stage H} {g : GeneratorRef}

theorem Change.count_eq (h : Change D L P s s') (hg : ¬ D g) :
    s'.running.count g = s.running.count g := by
  have hne : ∀ {g'}, D g' → g' ≠ g := by
    rintro _ hd rfl
    exact hg hd
  cases h with
  | resume hd ht hf => exact List.count_cons_of_ne (hne hd)
  | finish hd hs | pause f hd hp hs =>
    rw [hs]
    exact (List.count_cons_of_ne (hne hd)).symm
  | abandon hall => exact (List.count_eq_zero.2 fun hmem => hg (hall g hmem)).symm
  | _ => rfl

theorem Changes.count_eq (h : Changes D L P s s') (hg : ¬ D g) :
    s'.running.count g = s.running.count g := by
  induction h with
  | refl => rfl
  | tail _ h ih => exact (h.count_eq hg).trans ih

theorem Change.size_le (h : Change D L P s s') : s.generators.size ≤ s'.generators.size := by
  cases h with
  | create id f => simp
  | abandon hall => exact Nat.le_refl _
  | _ => exact size_le_modify s _ _

theorem Changes.size_le (h : Changes D L P s s') : s.generators.size ≤ s'.generators.size := by
  induction h with
  | refl => exact Nat.le_refl _
  | tail _ h ih => exact ih.trans h.size_le

theorem Change.generator_eq (h : Change D L P s s') (hg : ¬ D g) (ha : g.index < s.generators.size) :
    s'.generator g = s.generator g := by
  have hmodify : ∀ {g' : GeneratorRef} {change : Generator H → Generator H}, D g' →
      (s.modify g' change).generator g = s.generator g := by
    intro g' change hd
    rw [generator_modify, if_neg]
    rintro rfl
    exact hg hd
  cases h with
  | create id f =>
    simp only [generator, Store.get_push, Nat.ne_of_lt ha, if_false]
  | close hd => exact hmodify hd
  | drop hd => exact hmodify hd
  | resume hd ht hf => exact hmodify hd
  | fail hd ht hf => exact hmodify hd
  | finish hd hs => exact hmodify hd
  | pause f hd hp hs => exact hmodify hd
  | abandon hall => rfl

theorem Changes.generator_eq (h : Changes D L P s s') (hg : ¬ D g)
    (ha : g.index < s.generators.size) : s'.generator g = s.generator g := by
  induction h with
  | refl => rfl
  | tail h₀ h ih => exact (h.generator_eq hg (ha.trans_le (Changes.size_le h₀))).trans ih

end Stage

/-! ## On the ledger -/

theorem Duty.body_ne_adopt (g : GeneratorRef) (p q : PromiseRef) : Duty.body g p ≠ .adopt q := by
  rintro ⟨⟩

theorem Rights.not_drives {R : Rights} {d : Duty} (hd : d.OfStep) (hm : ¬ R.move d) :
    ¬ R.Drives d := by
  cases d with
  | serve a r | body g p => exact hm
  | _ => exact hd.elim

namespace Ledger

/-- A duty stays where it is, and so do the callbacks that have it. -/
structure Passes (d : Duty) (l l' : Ledger H) : Prop where
  owed : l'.owed d = l.owed d
  count : l'.stack.count d = l.stack.count d
  had : ∀ f kind, l'.engine.engagement? f = some (d, kind) → l'.Has f →
    l.Has f ∧ (l'.engine.callable f).code = (l.engine.callable f).code

/-- The generator is not in the async generator, or that has nothing to do. -/
def Apart (l : Ledger H) (g : GeneratorRef) (a : AsyncGeneratorRef) : Prop :=
  (l.engine.asyncGenerator a).inner = g →
    (l.engine.asyncGenerator a).state.isBusy = false ∧ (l.engine.asyncGenerator a).queue = []

variable {l l' : Ledger H} {g : GeneratorRef} {a : AsyncGeneratorRef} {d : Duty}

theorem Passes.refl (d : Duty) (l : Ledger H) : Passes d l l :=
  ⟨rfl, rfl, fun _ _ _ hf => ⟨hf, rfl⟩⟩

theorem Passes.trans {l'' : Ledger H} (h : Passes d l l') (h' : Passes d l' l'') :
    Passes d l l'' := by
  refine ⟨h'.owed.trans h.owed, h'.count.trans h.count, fun f kind hen hf => ?_⟩
  obtain ⟨hf', hcode'⟩ := h'.had f kind hen hf
  have hen' : l'.engine.engagement? f = some (d, kind) := by
    rw [Engine.engagement?, ← hcode']
    exact hen
  obtain ⟨hf, hcode⟩ := h.had f kind hen' hf'
  exact ⟨hf, hcode'.trans hcode⟩

theorem Apart.of_asyncGenerators (h : l.Apart g a)
    (heq : l'.engine.asyncGenerators = l.engine.asyncGenerators) : l'.Apart g a := by
  intro ha
  rw [Engine.asyncGenerator, heq] at ha ⊢
  exact h ha

end Ledger

section Acts

variable {R : Rights} {l l' : Ledger H} {g : GeneratorRef} {a : AsyncGeneratorRef} {d : Duty}

open Ledger

/-- **An act that may not move the duty passes it by.** -/
theorem Act.passes (h : Act R l l') (hd : ¬ R.Drives d) (hR : ¬ R.abandon) (hl : l.Lawful) :
    Passes d l l' := by
  have hs := hl.sound
  have hne : ∀ {d'}, R.Drives d' → d' ≠ d := by
    rintro _ hd' rfl
    exact hd hd'
  have hadopt : ∀ p, d ≠ .adopt p := by
    rintro p rfl
    exact hd trivial
  have hnone : ∀ j : Job H, j.results.count d = 0 := by
    refine fun j => j.count_results ?_
    rintro p rfl
    exact hd trivial
  suffices howed : l'.owed d = l.owed d ∧ l'.stack.count d = l.stack.count d from
    ⟨howed.1, howed.2, fun f kind hen hf => h.had hs hd hen hf⟩
  cases h with
  | effect he => exact ⟨(hs.effect he).2 _ hadopt, rfl⟩
  | @pop id j jobs hpop hj hc =>
    obtain ⟨-, ho⟩ := hs.pop hpop hj hc rfl
    refine ⟨?_, ?_⟩
    · rw [ho, hnone]
      rfl
    · rw [List.count_append, hnone, Nat.zero_add]
  | attach hpop => exact ⟨(hs.attach hpop).2 _, rfl⟩
  | adopt hf hcode hu ha hfate => exact ⟨hl.owed_adopt hf hcode ha hfate hadopt, rfl⟩
  | @lapse f hf hu hd' =>
    obtain ⟨⟨d', kind⟩, hen⟩ := Option.isSome_iff_exists.1 (hs.called f hf).1
    refine ⟨?_, rfl⟩
    have ho := (hs.uncall hf hen).2 d
    rw [if_neg (hne (hd' d' kind hen))] at ho
    exact ho
  | wake hf hen hd' hu hdrive =>
    exact ⟨(hs.wake hf hen hd' rfl).2 _, List.count_cons_of_ne (hne hdrive)⟩
  | @start d' p hd' ho hdrive =>
    refine ⟨?_, List.count_cons_of_ne (hne hdrive)⟩
    rw [(hs.push (Duty.ne_of_settles hd').1).2, if_neg (hne hdrive)]
    rfl
  | @discharge d' p rest hstack hd' hdrive =>
    refine ⟨?_, ?_⟩
    · have hdrop := (hs.drop hstack).2 d
      rw [if_neg (hne hdrive)] at hdrop
      exact hdrop
    · rw [hstack]
      exact (List.count_cons_of_ne (hne hdrive)).symm
  | @engage d' rest q c c' hstack hd' hdrive =>
    obtain ⟨h₁, hdrop⟩ := hs.drop hstack
    refine ⟨((h₁.engage q hd').2 d).trans (hdrop d), ?_⟩
    rw [hstack]
    exact (List.count_cons_of_ne (hne hdrive)).symm
  | request a c hr hserving => exact ⟨hs.newPromise.2 d, rfl⟩
  | @take a r rest s hserving hb hq ht hm =>
    have hd' : Duty.serve a r ≠ d := hne hm
    refine ⟨?_, List.count_cons_of_ne hd'⟩
    rw [(taken l a r rest s).owed, if_neg hd']
    rfl
  | @answer a r rest s kind v hstack hserving hb hv hm =>
    have hd' : Duty.serve a r ≠ d := hne hm
    refine ⟨?_, ?_⟩
    · have ho := (answer_frame hs hstack s hv).2 d
      rw [if_neg hd'] at ho
      exact ho
    · rw [hstack]
      exact (List.count_cons_of_ne hd').symm
  | abandon hc hserving hlose => exact absurd hlose hR
  | takeOff hpop => exact ⟨owed_takeOff hpop _, rfl⟩
  | putBack hh => exact ⟨owed_putBack hh _, rfl⟩
  | _ => exact ⟨rfl, rfl⟩

/-- Chains of acts. -/
theorem Acts.passes (h : Acts R l l') (hd : ¬ R.Drives d) (hR : ¬ R.abandon) (hl : l.Lawful) :
    Passes d l l' ∧ (l.owed d ≤ 1 → l.Unspent d → l'.Unspent d) := by
  induction h with
  | refl => exact ⟨.refl d l, fun _ hu => hu⟩
  | tail h₀ h ih =>
    obtain ⟨hp, hunspent⟩ := ih
    have hlaw := (Acts.keeps h₀ hl).lawful
    refine ⟨hp.trans (h.passes hd hR hlaw), fun hle hu => ?_⟩
    exact h.unspent hlaw.sound (hp.owed.trans_le hle) (hunspent hle hu)

end Acts

/-! ## Where duties come from -/

namespace World

variable {w : World H} {g : GeneratorRef} {issued : List (AsyncGeneratorRef × Request)}

section Wake

variable {e : Engine H} {f : FunctionRef} {args : List Value} {k : Caller H} {held : List (Job H)}
  {waiter : Waiter H} {kind : Settling} {d : Duty}

/-- A callback of whoever waits is being called. -/
theorem called_of_wake (hcode : (e.callable f).code = .wake waiter kind)
    (hd : waiter.duty? = some d) :
    ((World.mk ⟨e, .call f args k⟩ held).ledger issued).called = some f :=
  Control.called?_call (Engine.engagement?_of_wake hcode hd) args k

/-- A callback with a duty that is being called makes it owed. -/
theorem owed_of_wake (hcode : (e.callable f).code = .wake waiter kind)
    (hd : waiter.duty? = some d) :
    0 < ((World.mk ⟨e, .call f args k⟩ held).ledger issued).owed d :=
  Ledger.owed_pos_of_called (called_of_wake hcode hd) (Engine.engagement?_of_wake hcode hd)

/-- A callback that is being called can still be called, if the duty is unspent. -/
theorem usage_of_wake (hu : ((World.mk ⟨e, .call f args k⟩ held).ledger issued).Unspent d)
    (hcode : (e.callable f).code = .wake waiter kind) (hd : waiter.duty? = some d) :
    (e.callable f).usage = .once :=
  hu f kind (Engine.engagement?_of_wake hcode hd) (.inr (called_of_wake hcode hd))

end Wake

/-- An async generator looks at its queue, and the request is the next one there. -/
inductive Looks : World H → Move H → AsyncGeneratorRef → Request → Prop where
  | intro {e : Engine H} {a : AsyncGeneratorRef} {reply : Value} {k : Caller H}
      {held : List (Job H)} {r : Request} {rest : List Request} :
      (e.asyncGenerator a).queue = r :: rest → Looks ⟨⟨e, .serve a reply k⟩, held⟩ .tick a r

theorem Looks.mem_queue {m : Move H} {a : AsyncGeneratorRef} {r : Request} (h : w.Looks m a r) :
    r ∈ (w.config.engine.asyncGenerator a).queue := by
  cases h with
  | @intro e a reply k held r rest hq =>
    show r ∈ (e.asyncGenerator a).queue
    rw [hq]
    exact List.mem_cons_self

/-- **Where the duty comes from that a move drives a generator for**: it is owed, or it is
that of the next request, or of an async function that begins. -/
theorem origin_of_drives {m : Move H} {d : Duty} (h : w.Drives m g (some d))
    (issued : List (AsyncGeneratorRef × Request)) :
    0 < (w.ledger issued).owed d ∨ (∃ a r, d = .serve a r ∧ w.Looks m a r) ∨
      ∃ f, m = .perform (.startAsync f) ∧
        d = .body ⟨w.config.engine.generators.size⟩ ⟨w.config.engine.promises.size⟩ := by
  have hstack : ∀ {x}, some d = x → (g, x) ∈ w.config.control.steps → d.OfStep →
      0 < (w.ledger issued).owed d := by
    rintro _ rfl hmem hd
    have hcount : 0 < w.config.control.duties.count d := by
      rw [w.config.control.tallies.duties d hd]
      exact List.countP_pos_iff.2 ⟨_, hmem, decide_eq_true rfl⟩
    exact hcount.trans_le (Nat.le_add_left _ _)
  have hstep : ∀ {purpose : Purpose H}, some d = purpose.duty? g → d.OfStep := by
    intro purpose hd
    cases purpose <;> cases hd <;> trivial
  generalize hd : some d = x at h
  cases h with
  | wake hcode hmem =>
    cases hd
    exact .inl (owed_of_wake hcode (Waiter.duty?_of_drives hmem))
  | resume => exact .inl (hstack hd List.mem_cons_self (hstep hd))
  | run => exact .inl (hstack hd List.mem_cons_self (hstep hd))
  | frame o code => exact .inl (hstack hd List.mem_cons_self (hstep hd))
  | serve hq => exact .inr (.inl ⟨_, _, Option.some.inj hd, .intro hq⟩)
  | start f => exact .inr (.inr ⟨f, rfl, Option.some.inj hd⟩)
  | named hmem => cases hd

/-- A move is about a request of an async generator only if that has something to do. -/
theorem occupied_of_drives {m : Move H} {a : AsyncGeneratorRef} {r : Request}
    (hl : (w.ledger issued).Exclusive) (h : w.Drives m g (some (.serve a r))) :
    (w.config.engine.asyncGenerator a).state.isBusy = true ∨
      (w.config.engine.asyncGenerator a).queue ≠ [] := by
  obtain hpos | ⟨b, s, hd, hr⟩ | ⟨f, -, hd⟩ := origin_of_drives h issued
  · exact .inl (hl.busy hpos)
  · cases hd
    exact .inr (List.ne_nil_of_mem hr.mem_queue)
  · cases hd

end World

/-! ## Steps -/

/-- The generators that an operation reaches: one that it names, and the one inside an
async generator that it makes a request of. -/
def Op.reaches (e : Engine H) : Op H → List GeneratorRef
  | .stepGenerator g _ | .advanceGenerator g _ | .closeGenerator g | .dropFrame g
  | .generatorMethod (.generator g) _ _ => [g]
  | .request a _ | .asyncGeneratorMethod (.asyncGenerator a) _ _ => [(e.asyncGenerator a).inner]
  | _ => []

/-- The generators that the host reaches with a move. -/
def World.reaches (w : World H) : Move H → List GeneratorRef
  | .perform op => op.reaches w.config.engine
  | _ => []

instance : (m : Move H) → Decidable (m = .abandon)
  | .abandon => .isTrue rfl
  | .tick | .perform _ | .finishCall _ | .finishFrame _ _ | .finishJob _ => .isFalse nofun

/-- The move drops neither the jobs that wait nor what is under way. -/
structure Move.Lossless (m : Move H) : Prop where
  clears : m.clears = false
  abandon : m ≠ .abandon

instance : (m : Move H) → Decidable m.Lossless
  | .abandon => .isFalse fun h => h.abandon rfl
  | .perform op => decidable_of_iff (op.clears = false) ⟨fun h => ⟨h, nofun⟩, (·.clears)⟩
  | .tick | .finishCall _ | .finishFrame _ _ | .finishJob _ => .isTrue ⟨rfl, nofun⟩

section Steps

variable {w w' : World H} {m : Move H} {g : GeneratorRef} {a : AsyncGeneratorRef} {d : Duty}
  {issued : List (AsyncGeneratorRef × Request)}

/-- **A step passes by the duties that its move is not about.** -/
theorem Step.passes (h : Step w m w') (hm : m.Lossless) (hbacked : w.config.engine.Backed)
    (hl : (w.ledger issued).Lawful) (hd : d.OfStep) (hnot : ∀ x ∈ w.drives m, x.2 ≠ some d) :
    Ledger.Passes d (w.ledger issued) (w'.ledger (w.issued issued m)) ∧
      ((w.ledger issued).owed d ≤ 1 → (w.ledger issued).Unspent d →
        (w'.ledger (w.issued issued m)).Unspent d) := by
  let R : Rights := { Rights.all with move := (· ≠ d), abandon := False }
  have hcovers : R.Covers w m := by
    refine { Rights.all_covers w m with
      fresh := ⟨fun _ _ => trivial, fun _ _ => trivial, fun _ _ => trivial⟩
      drive := fun x hx => ⟨trivial, ?_⟩
      abandon := hm.abandon }
    rintro d' hd' rfl
    exact hnot x hx hd'
  exact (h.acts hm.clears hcovers hbacked issued).passes
    (Rights.not_drives hd fun hne => hne rfl) id hl

theorem Step.flights (h : Step w m w') (hm : m.Lossless) (hbacked : w.config.engine.Backed)
    (hl : (w.ledger issued).Flights) : (w'.ledger (w.issued issued m)).Flights := by
  let R : Rights := { Rights.all with abandon := False }
  have hcovers : R.Covers w m :=
    { Rights.all_covers w m with
      fresh := ⟨fun _ _ => trivial, fun _ _ => trivial, fun _ _ => trivial⟩
      abandon := hm.abandon }
  exact (h.acts hm.clears hcovers hbacked issued).preserve (fun ha => ha.flights id) hl

theorem World.reaches_request {a : AsyncGeneratorRef} {c : Completion}
    (hm : m.request? = some (a, c)) (w : World H) :
    (w.config.engine.asyncGenerator a).inner ∈ w.reaches m := by
  cases m with
  | perform op =>
    cases op with
    | request a' c' =>
      cases hm
      exact List.mem_singleton.2 rfl
    | asyncGeneratorMethod receiver method args =>
      cases receiver with
      | asyncGenerator a' =>
        obtain ⟨c', -, hc⟩ := Option.map_eq_some_iff.1 hm
        cases hc
        exact List.mem_singleton.2 rfl
      | _ => cases hm
    | _ => cases hm
  | _ => cases hm

end Steps

/-! ## The start -/

theorem Ledger.flights_start : (({} : World H).ledger []).Flights := by
  refine ⟨lawful_start, fun a r f kind hen hf => ?_, fun a => ⟨none, ?_, fun r => ?_⟩⟩
  · exact absurd (Engine.exists_of_engagement hen) (Nat.not_lt_zero _)
  · have hnew : (({} : World H).ledger []).engine.asyncGenerator a = {} :=
      Store.get_of_size_le (Nat.zero_le _)
    rw [hnew]
    rfl
  · rfl

end Microtask
