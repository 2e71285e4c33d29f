import Microtask.Proofs.Stepwise

/-!
# What acts leave alone

Objects and tallies are changed by effects that concern nothing else, and each of those needs
a right: the host has to name an object that is changed, and a tally is counted down by
functions that report to it. So an object stays as it was made unless the host writes it
(`Step.shows`), and a tally stays as it is unless a function is called that reports to it
(`Step.tally`).

A function stays as it was made unless it may be called once and is called (`Step.callable`).
-/

namespace Microtask

variable {H : Type}

/-! ## Acts -/

section Acts

variable {R : Rights} {l l' : Ledger H}

/-- What operations on promises, functions and jobs keep, and the other effects too, every act
keeps. -/
theorem Act.records {P : Engine H → Prop} (h : Act R l l')
    (hsame : ∀ {e e' : Engine H}, e'.objects = e.objects → e'.tallies = e.tallies → P e → P e')
    (haside : ∀ {e e' : Engine H}, e.Aside R e' → P e → P e') (hP : P l.engine) :
    P l'.engine := by
  have hsettle : ∀ (e : Engine H) p kind v, P e → P (e.settleNow p kind v) := fun e p kind v =>
    hsame (Engine.frame_settleNow Engine.objects (fun _ _ _ _ => rfl) e p kind v)
      (Engine.tallies_settleNow e p kind v)
  have hthen : ∀ (e : Engine H) p f g capability, P e → P (e.performThen p f g capability) :=
    fun e p f g capability =>
      hsame (Engine.frame_performThen e p f g capability Engine.objects fun _ _ _ _ => rfl)
        (Engine.tallies_performThen e p f g capability)
  have hused : ∀ (e : Engine H) f, P e → P (e.used f) := by
    intro e f
    refine hsame ?_ ?_ <;> (unfold Engine.used; split <;> rfl)
  have hfate : ∀ {e e' : Engine H} {p}, e.Fate p e' → P e → P e' := by
    intro e e' p hf
    cases hf with
    | settled kind v => exact hsettle e p kind v
    | adopts hq => exact hsame rfl rfl
  have hengage : ∀ (e : Engine H) q c c', P e → P (e.engage q c c') := fun e q c c' he =>
    hthen _ q _ _ none (hsame (e := e) rfl rfl he)
  cases h with
  | effect he =>
    cases he with
    | aside ha => exact haside ha hP
    | @decide _ p hr hR hf => exact hfate hf (hsame (e := l.engine) rfl rfl hP)
    | performThen p hf hg hc => exact hthen _ p _ _ _ hP
    | _ => exact hsame (e := l.engine) rfl rfl hP
  | @attach id p q jobs hpop => exact hengage _ q _ _ (hsame (e := l.engine) rfl rfl hP)
  | @adopt f p kind e e' hf hc hu ha h =>
    exact hfate h (haside ha (hused _ f hP))
  | wake hf he hd hu => exact hused _ _ hP
  | engage hs he => exact hengage _ _ _ _ hP
  | @answer a r rest s kind v hs ha hb hv =>
    have hset : P (l.engine.setAsyncState a s) := hsame (e := l.engine) rfl rfl hP
    cases hres : ((l.engine.setAsyncState a s).promise r.capability).resolved with
    | true =>
      rw [Engine.settle_of_resolved hres]
      exact hset
    | false =>
      rw [Engine.settle_of_unresolved hres hv]
      exact hsettle _ _ kind v (hsame (e := l.engine.setAsyncState a s) rfl rfl hset)
  | _ => exact hsame (e := l.engine) rfl rfl hP

/-- An object that exists stays as it is, unless it may be changed. -/
theorem Act.object (h : Act R l l') {o : ObjectRef} {x : Object}
    (ho : o.index < l.engine.objects.size ∧ (¬ R.write o → l.engine.object o = x)) :
    o.index < l'.engine.objects.size ∧ (¬ R.write o → l'.engine.object o = x) := by
  refine h.records
    (P := fun e => o.index < e.objects.size ∧ (¬ R.write o → e.object o = x)) ?_ ?_ ho
  · intro e e' hobjects _ he
    rw [Engine.object, hobjects]
    exact he
  · rintro e e' ha ⟨hlt, hx⟩
    cases ha with
    | newObject y =>
      refine ⟨(Nat.lt_succ_of_lt hlt).trans_eq (Store.size_push ..).symm, fun hR => ?_⟩
      exact ((Store.get_push ..).trans (if_neg hlt.ne)).trans (hx hR)
    | @setProperty u key v hu =>
      refine ⟨hlt.trans_le ((le_max_left ..).trans_eq (Store.size_set ..).symm), fun hR => ?_⟩
      have hne : o.index ≠ u.index := fun heq => hR (by cases o; cases u; cases heq; exact hu)
      exact ((Store.get_modify ..).trans (if_neg hne)).trans (hx hR)
    | _ => exact ⟨hlt, hx⟩

/-- A tally stays as it is, if it may not be counted down. -/
theorem Act.tally (h : Act R l l') {t : TallyRef} {r : Tally} (hR : ¬ R.count t)
    (ht : t.index < l.engine.tallies.size ∧ l.engine.tally t = r) :
    t.index < l'.engine.tallies.size ∧ l'.engine.tally t = r := by
  refine h.records (P := fun e => t.index < e.tallies.size ∧ e.tally t = r) ?_ ?_ ht
  · intro e e' _ htallies he
    rw [Engine.tally, htallies]
    exact he
  · rintro e e' ha ⟨hlt, hx⟩
    cases ha with
    | newTally howns =>
      refine ⟨(Nat.lt_succ_of_lt hlt).trans_eq (Store.size_push ..).symm, Eq.trans ?_ hx⟩
      exact (Store.get_push ..).trans (if_neg hlt.ne)
    | @modifyTally u change hu hc hmay hcount =>
      have hne : t.index ≠ u.index := by
        intro heq
        obtain rfl := TallyRef.index_inj.1 heq
        exact hR hcount
      refine ⟨hlt.trans_le ((le_max_left ..).trans_eq (Store.size_set ..).symm), Eq.trans ?_ hx⟩
      exact (Store.get_modify ..).trans (if_neg hne)
    | _ => exact ⟨hlt, hx⟩

/-- A function stays as it is, unless it may be called once and is used up. -/
theorem Act.callable (h : Act R l l') {f : FunctionRef} {c : Callable H}
    (hc : c.usage = .once → c.code.engagement? = none ∧ ¬ R.spend f)
    (hf : f.index < l.engine.callables.size ∧ l.engine.callable f = c) :
    f.index < l'.engine.callables.size ∧ l'.engine.callable f = c := by
  refine ⟨hf.1.trans_le h.grows.callables, Eq.trans ?_ hf.2⟩
  have hnew : ∀ (e : Engine H) (c : Callable H), f.index < e.callables.size →
      (e.newFunction c).2.callable f = e.callable f := by
    intro e c hlt
    rw [Engine.callable_newFunction, if_neg]
    rintro rfl
    exact hlt.ne rfl
  have hspend : ∀ {g : FunctionRef}, f ≠ g → (l.engine.spend g).callable f = l.engine.callable f :=
    fun hne => (Engine.callable_spend ..).trans (if_neg hne)
  -- a function with a duty is not the one at hand, if that may be called once
  have hused : ∀ {g x}, l.engine.engagement? g = some x →
      (l.engine.used g).callable f = l.engine.callable f := by
    intro g x hg
    unfold Engine.used
    split
    · next honce =>
      refine hspend ?_
      rintro rfl
      rw [hf.2] at honce
      rw [Engine.engagement?, hf.2, (hc honce).1] at hg
      cases hg
    · rfl
    · rfl
  have hengage : ∀ (e : Engine H) q c c', f.index < e.callables.size →
      (e.engage q c c').callable f = e.callable f := by
    intro e q c c' hlt
    have hlt' : f.index < (e.newFunction c).2.callables.size :=
      hlt.trans_le (Engine.grows_newFunction e c).callables
    rw [Engine.engage, Engine.callable, Engine.callables_performThen, ← Engine.callable, hnew _ _ hlt',
      hnew _ _ hlt]
  have hsame : ∀ {e e' : Engine H}, e'.callables = e.callables → e'.callable f = e.callable f :=
    fun he => by rw [Engine.callable, Engine.callable, he]
  cases h with
  | effect he =>
    cases he with
    | aside ha => exact ha.callable f
    | newFunction hg => exact hnew _ _ hf.1
    | spend hen honce hR =>
      refine hspend ?_
      rintro rfl
      rw [hf.2] at honce
      exact (hc honce).2 hR
    | decide hr hR hfate => exact hsame hfate.callables
    | performThen p hg hg' hc => exact hsame (Engine.callables_performThen _ p _ _ _)
    | _ => rfl
  | @attach id p q jobs hpop => exact hengage { l.engine with jobs } q _ _ hf.1
  | @adopt g p kind e e' hg hcode hu ha hfate =>
    have hen : l.engine.engagement? g = some (.adopt p, kind) := by
      rw [Engine.engagement?, hcode]
      rfl
    exact (hsame hfate.callables).trans ((ha.callable f).trans (hused hen))
  | wake hg hen hd hu => exact hused hen
  | engage hs hd => exact hengage _ _ _ _ hf.1
  | @answer a r rest s kind v hs ha hb hv =>
    cases hres : ((l.engine.setAsyncState a s).promise r.capability).resolved with
    | true =>
      rw [Engine.settle_of_resolved hres]
      rfl
    | false =>
      rw [Engine.settle_of_unresolved hres hv]
      exact hsame (Engine.callables_settleNow _ _ _ _)
  | _ => rfl

end Acts

/-! ## Steps -/

section Steps

variable {w w' : World H} {m : Move H} {es : List (Event H)}

/-- The rights of whoever may not count the tally. -/
def Rights.silent (t : TallyRef) : Rights := { Rights.all with count := (· ≠ t) }

theorem Rights.silent_covers {t : TallyRef} (ht : t.index < w.config.engine.tallies.size)
    (hcall : t ∉ w.config.control.tally? w.config.engine) : (Rights.silent t).Covers w m :=
  { Rights.all_covers w m with
    fresh := ⟨fun _ _ => trivial, fun _ _ => trivial, by
      rintro u hle rfl
      exact absurd ht (Nat.not_lt_of_le hle)⟩
    count := by
      rintro u hu rfl
      exact hcall hu }

/-- The value is an object with the given content, unless the host has changed it in the course
of the events. -/
def World.Shows (w : World H) (es : List (Event H)) (v : Value) (x : Object) : Prop :=
  ∃ o : ObjectRef, v = .object o ∧ o.index < w.config.engine.objects.size ∧
    ((∀ ev ∈ es, o ∉ ev.move.writes) → w.config.engine.object o = x)

/-- Only the host changes objects. -/
theorem Step.shows (h : Step w m w') (hm : m.clears = false)
    (hbacked : w.config.engine.Backed) {v : Value} {x : Object} (hv : w.Shows es v x) :
    w'.Shows (⟨w, m⟩ :: es) v x := by
  obtain ⟨o, rfl, ho, hx⟩ := hv
  let R : Rights := { Rights.all with
    write := fun u => ∃ ev ∈ (⟨w, m⟩ :: es : List (Event H)), u ∈ ev.move.writes }
  have hcovers : R.Covers w m := { Rights.all_covers w m with
    fresh := ⟨fun _ _ => trivial, fun _ _ => trivial, fun _ _ => trivial⟩
    write := fun u hu => ⟨_, List.mem_cons_self, hu⟩ }
  have hkeep := (h.acts hm hcovers hbacked []).preserve
    (P := fun l => o.index < l.engine.objects.size ∧ (¬ R.write o → l.engine.object o = x))
    (fun ha => ha.object)
    ⟨ho, fun hR => hx fun ev hev hmem => hR ⟨ev, List.mem_cons_of_mem _ hev, hmem⟩⟩
  exact ⟨o, rfl, hkeep.1, fun hall => hkeep.2 fun ⟨ev, hev, hmem⟩ => hall ev hev hmem⟩

/-- **A tally is changed by the calls of functions that report to it** and by nothing else. -/
theorem Step.tally (h : Step w m w') (hbacked : w.config.engine.Backed) {t : TallyRef}
    (ht : t.index < w.config.engine.tallies.size)
    (hcall : t ∉ w.config.control.tally? w.config.engine) :
    w'.config.engine.tally t = w.config.engine.tally t := by
  cases hm : m.clears with
  | true =>
    obtain ⟨e, hl, he, -, -⟩ := h.clears hm []
    have hengine : w'.config.engine = e := congrArg Ledger.engine hl
    rw [hengine, Engine.tally, he.tallies]
    rfl
  | false =>
    have hcovers : (Rights.silent t).Covers w m := Rights.silent_covers ht hcall
    exact ((h.acts hm hcovers hbacked []).preserve
      (P := fun l => t.index < l.engine.tallies.size ∧ l.engine.tally t = w.config.engine.tally t)
      (fun ha => ha.tally fun (hcount : t ≠ t) => hcount rfl) ⟨ht, rfl⟩).2

/-- **A function is changed by being called**, if it may be called once, and by nothing else. -/
theorem Step.callable (h : Step w m w') (hbacked : w.config.engine.Backed) {f : FunctionRef}
    (hf : f.index < w.config.engine.callables.size)
    (honce : (w.config.engine.callable f).usage = .once →
      (w.config.engine.callable f).code.engagement? = none ∧ f ∉ w.config.control.callee?) :
    w'.config.engine.callable f = w.config.engine.callable f := by
  cases hm : m.clears with
  | true =>
    obtain ⟨e, hl, he, -, -⟩ := h.clears hm []
    have hengine : w'.config.engine = e := congrArg Ledger.engine hl
    rw [hengine, Engine.callable, he.callables]
    rfl
  | false =>
    let R : Rights := { Rights.all with spend := (· ∈ w.config.control.callee?) }
    have hcovers : R.Covers w m := { Rights.all_covers w m with
      fresh := ⟨fun _ _ => trivial, fun _ _ => trivial, fun _ _ => trivial⟩
      spend := fun _ hg => hg }
    exact ((h.acts hm hcovers hbacked []).preserve
      (P := fun l => f.index < l.engine.callables.size ∧
        l.engine.callable f = w.config.engine.callable f)
      (fun ha => ha.callable honce) ⟨hf, rfl⟩).2

end Steps

end Microtask
