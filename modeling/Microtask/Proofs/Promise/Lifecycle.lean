import Microtask.Proofs.Outstanding
import Microtask.Proofs.Stepwise

/-!
# The life of a promise

What the fields of a promise say together (`Promise.Sane`), and what they never
take back (`Promise.Persists`).

The functions whose name ends in `Now` do not look at the fate of the promise, and
one of them may link a promise that has settled. So the invariant that carries the
proof counts adoptions: a promise that waits for another one is owed at most one,
and no other promise is owed any (`Ledger.Lawful`). What an act changes about the
one side it changes about the other (`Ledger.Keeps`).

Main statement: `Promise.lifecycle`.
-/

namespace Microtask

variable {H : Type}

/-! ## Single promises -/

namespace Promise

/-- The fields of a promise fit together. -/
structure Sane (r : Promise) : Prop where
  settled : r.state ≠ .pending →
    r.resolved = true ∧ r.onFulfilled = [] ∧ r.onRejected = [] ∧ r.following = none
  undecided : r.state = .pending → r.resolved = false → r.following = none
  locked : r.state = .pending → r.resolved = true → r.following.isSome = true
  paired : r.onFulfilled.length = r.onRejected.length
  unhandled : r.handled = false → r.onFulfilled = [] ∧ r.onRejected = []

/-- What a promise never takes back. -/
structure Persists (r r' : Promise) : Prop where
  settled : r.state ≠ .pending → r'.state = r.state
  resolved : r.resolved = true → r'.resolved = true
  handled : r.handled = true → r'.handled = true

/-- The number of adoptions that are due: one if the fate is decided but the promise
has not settled. -/
def adopts (r : Promise) : Nat := if r.state = .pending ∧ r.resolved = true then 1 else 0

variable {r r' r'' : Promise}

theorem Persists.refl (r : Promise) : r.Persists r := ⟨fun _ => rfl, fun h => h, fun h => h⟩

theorem Persists.trans (h : r.Persists r') (h' : r'.Persists r'') : r.Persists r'' where
  settled hs := by
    have hs' := h.settled hs
    rw [h'.settled (hs' ▸ hs), hs']
  resolved hr := h'.resolved (h.resolved hr)
  handled hr := h'.handled (h.handled hr)

theorem adopts_of_settled (h : r.state ≠ .pending) : r.adopts = 0 := if_neg fun hr => h hr.1

theorem adopts_of_unresolved (h : r.resolved = false) : r.adopts = 0 :=
  if_neg fun hr => by rw [h] at hr; cases hr.2

theorem adopts_of_locked (h : r.state = .pending) (hr : r.resolved = true) : r.adopts = 1 :=
  if_pos ⟨h, hr⟩

theorem locked_of_adopts (h : 0 < r.adopts) : r.state = .pending ∧ r.resolved = true := by
  by_contra hr
  rw [adopts, if_neg hr] at h
  cases h

/-- A promise that nobody has resolved is pending. -/
theorem Sane.pending (h : r.Sane) (hr : r.resolved = false) : r.state = .pending := by
  by_contra hs
  rw [(h.settled hs).1] at hr
  cases hr

/-- Callbacks wait only on a promise that is pending. -/
theorem Sane.pending_of_reaction (h : r.Sane) (kind : Settling) {x : Reaction}
    (hx : x ∈ r.reactions kind) : r.state = .pending := by
  by_contra hs
  obtain ⟨-, hfulfill, hreject, -⟩ := h.settled hs
  have hnone : r.reactions kind = [] := by
    cases kind with
    | fulfill => exact hfulfill
    | reject => exact hreject
  rw [hnone] at hx
  cases hx

theorem sane_new (id : Nat) : ({ id } : Promise).Sane :=
  ⟨fun h => absurd rfl h, fun _ _ => rfl, nofun, rfl, fun _ => ⟨rfl, rfl⟩⟩

theorem sane_settled (kind : Settling) (v : Value) (hr : r.resolved = true) :
    (r.settled kind v).Sane := by
  have hs := settled_ne_pending r kind v
  exact ⟨fun _ => ⟨hr, rfl, rfl, rfl⟩, fun h => absurd h hs, fun h => absurd h hs, rfl,
    fun _ => ⟨rfl, rfl⟩⟩

theorem persists_settled (kind : Settling) (v : Value) (h : r.state = .pending) :
    r.Persists (r.settled kind v) :=
  ⟨fun hs => absurd h hs, fun h => h, fun h => h⟩

theorem adopts_settled (kind : Settling) (v : Value) : (r.settled kind v).adopts = 0 :=
  adopts_of_settled (settled_ne_pending r kind v)

/-- Attaching keeps everything but the two lists and the mark. -/
theorem attach_fields (f g : Option FunctionRef) (capability : Option PromiseRef) :
    (r.attach f g capability).state = r.state ∧ (r.attach f g capability).resolved = r.resolved ∧
      (r.attach f g capability).following = r.following ∧
      (r.attach f g capability).handled = true :=
  ⟨read_attach state (fun _ _ _ => rfl) r f g capability,
    read_attach resolved (fun _ _ _ => rfl) r f g capability,
    read_attach following (fun _ _ _ => rfl) r f g capability, handled_attach r f g capability⟩

theorem Sane.attach (h : r.Sane) (f g : Option FunctionRef) (capability : Option PromiseRef) :
    (r.attach f g capability).Sane := by
  obtain ⟨hs, hr, hf, hh⟩ := attach_fields (r := r) f g capability
  refine ⟨fun hp => ?_, fun hp hn => ?_, fun hp hn => ?_, ?_, fun hn => ?_⟩
  · rw [hs] at hp
    obtain ⟨h₁, h₂, h₃, h₄⟩ := h.settled hp
    rw [hr, hf]
    refine ⟨h₁, ?_, ?_, h₄⟩
    · unfold Promise.attach
      split
      · next hpend => exact absurd hpend hp
      · exact h₂
    · unfold Promise.attach
      split
      · next hpend => exact absurd hpend hp
      · exact h₃
  · rw [hf]
    exact h.undecided (hs ▸ hp) (hr ▸ hn)
  · rw [hf]
    exact h.locked (hs ▸ hp) (hr ▸ hn)
  · unfold Promise.attach
    split
    · simp [h.paired]
    · exact h.paired
  · rw [hh] at hn
    cases hn

theorem persists_attach (f g : Option FunctionRef) (capability : Option PromiseRef) :
    r.Persists (r.attach f g capability) := by
  obtain ⟨hs, hr, -, hh⟩ := attach_fields (r := r) f g capability
  exact ⟨fun _ => hs, fun h => hr.trans h, fun _ => hh⟩

theorem adopts_attach (f g : Option FunctionRef) (capability : Option PromiseRef) :
    (r.attach f g capability).adopts = r.adopts := by
  obtain ⟨hs, hr, -, -⟩ := attach_fields (r := r) f g capability
  rw [adopts, adopts, hs, hr]

end Promise

/-! ## Ledgers -/

namespace Ledger

/-- Every promise is sane, and as many adoptions are owed as are due at most. -/
structure Lawful (l : Ledger H) : Prop where
  sound : l.Sound
  sane : ∀ p, (l.engine.promise p).Sane
  owed : ∀ p, l.owed (.adopt p) ≤ (l.engine.promise p).adopts

/-- A lawful ledger, after a change that keeps the balance of the adoptions that
are owed and those that are due. -/
structure Keeps (l l' : Ledger H) : Prop where
  lawful : l'.Lawful
  persists : ∀ p, (l.engine.promise p).Persists (l'.engine.promise p)
  balance : ∀ p, l'.owed (.adopt p) + (l.engine.promise p).adopts =
    l.owed (.adopt p) + (l'.engine.promise p).adopts

variable {l l' l'' : Ledger H}

theorem Keeps.refl (h : l.Lawful) : l.Keeps l := ⟨h, fun _ => .refl _, fun _ => rfl⟩

theorem Keeps.trans (h : l.Keeps l') (h' : l'.Keeps l'') : l.Keeps l'' where
  lawful := h'.lawful
  persists p := (h.persists p).trans (h'.persists p)
  balance p := by
    have h₁ := h.balance p
    have h₂ := h'.balance p
    omega

/-- The adoption is due whose callback is being called. -/
theorem Lawful.due (h : l.Lawful) {f : FunctionRef} {p : PromiseRef} {kind : Settling}
    (hf : l.called = some f) (hcode : (l.engine.callable f).code = .adopt p kind) :
    (l.engine.promise p).state = .pending ∧ (l.engine.promise p).resolved = true := by
  have hpos := owed_pos_of_called hf (Engine.engagement?_of_adopt hcode)
  exact Promise.locked_of_adopts (hpos.trans_le (h.owed p))

/-- An adoption that is passed on is the only duty that is owed less, or more. -/
theorem Lawful.owed_adopt {R : Rights} (h : l.Lawful) {f : FunctionRef} {p : PromiseRef}
    {kind : Settling} {e e' : Engine H} (hf : l.called = some f)
    (hcode : (l.engine.callable f).code = .adopt p kind) (ha : (l.engine.used f).Aside R e)
    (hfate : e.Fate p e') {d : Duty} (hd : ∀ q, d ≠ .adopt q) :
    ({ l with engine := e', called := none } : Ledger H).owed d = l.owed d := by
  obtain ⟨hpend, hres⟩ := h.due hf hcode
  have hdue : (l.engine.promise p).adopts = 1 := Promise.adopts_of_locked hpend hres
  obtain ⟨h₁, ho₁⟩ := h.sound.adopt hf hcode ((h.owed p).trans hdue.le) ha
  obtain ⟨-, ho₂⟩ := h₁.fate hfate
  have hd₁ := ho₁ d
  rw [if_neg (hd p).symm] at hd₁
  exact (ho₂ d hd).trans hd₁

/-- The bound on what is owed follows from the balance. -/
theorem Keeps.of_balance (h : l.Lawful) (hs : l'.Sound) (hsane : ∀ p, (l'.engine.promise p).Sane)
    (hp : ∀ p, (l.engine.promise p).Persists (l'.engine.promise p))
    (hb : ∀ p, l'.owed (.adopt p) + (l.engine.promise p).adopts =
      l.owed (.adopt p) + (l'.engine.promise p).adopts) : l.Keeps l' := by
  refine ⟨⟨hs, hsane, fun p => ?_⟩, hp, hb⟩
  have h₁ := hb p
  have h₂ := h.owed p
  omega

/-- Changes that leave promises alone. -/
theorem Keeps.of_promise (h : l.Lawful) (hs : l'.Sound)
    (hp : ∀ p, l'.engine.promise p = l.engine.promise p)
    (ho : ∀ p, l'.owed (.adopt p) = l.owed (.adopt p)) : l.Keeps l' :=
  .of_balance h hs (fun p => (hp p).symm ▸ h.sane p) (fun p => (hp p).symm ▸ .refl _)
    fun p => by rw [ho p, hp p]

/-- One promise changes, and with it the adoption that is due. -/
theorem Keeps.of_change (h : l.Lawful) (hs : l'.Sound) (p : PromiseRef) {r : Promise}
    (hp : ∀ q, l'.engine.promise q = if q = p then r else l.engine.promise q) (hsane : r.Sane)
    (hr : (l.engine.promise p).Persists r)
    (ho : ∀ q, l'.owed (.adopt q) + (if p = q then (l.engine.promise p).adopts else 0) =
      l.owed (.adopt q) + if p = q then r.adopts else 0) : l.Keeps l' := by
  refine .of_balance h hs (fun q => ?_) (fun q => ?_) fun q => ?_
  · rw [hp q]
    split
    · exact hsane
    · exact h.sane q
  · rw [hp q]
    split
    · next hq => exact hq ▸ hr
    · exact .refl _
  · have hq := ho q
    rw [hp q]
    by_cases heq : p = q
    · rw [if_pos heq, if_pos heq, heq] at hq
      rw [if_pos heq.symm]
      exact hq
    · rw [if_neg heq, if_neg heq] at hq
      rw [if_neg (Ne.symm heq)]
      omega

/-- Attaching reactions to a promise. -/
theorem Keeps.of_attach (h : l.Lawful) (hs : l'.Sound) (q : PromiseRef)
    {f g : Option FunctionRef} {capability : Option PromiseRef}
    (hp : ∀ p, l'.engine.promise p =
      if p = q then (l.engine.promise q).attach f g capability else l.engine.promise p)
    (ho : ∀ p, l'.owed (.adopt p) = l.owed (.adopt p)) : l.Keeps l' := by
  refine .of_change h hs q hp ((h.sane q).attach f g capability)
    (Promise.persists_attach f g capability) fun p => ?_
  rw [ho p, Promise.adopts_attach]

/-- The fate of a pending promise is decided, and the adoption that was due if
there was one is not owed any more. -/
theorem Keeps.of_fate (h : l.Lawful) {l₁ : Ledger H} (h₁ : l₁.Sound) {p : PromiseRef}
    (hp : ∀ q, l₁.engine.promise q =
      if q = p then { l.engine.promise p with resolved := true } else l.engine.promise q)
    (hpend : (l.engine.promise p).state = .pending)
    (ho : ∀ q, l₁.owed (.adopt q) + (if p = q then (l.engine.promise p).adopts else 0) =
      l.owed (.adopt q)) {e' : Engine H} (hf : l₁.engine.Fate p e') :
    l.Keeps { l₁ with engine := e' } := by
  have hself : l₁.engine.promise p = { l.engine.promise p with resolved := true } := by
    rw [hp, if_pos rfl]
  have hpend₁ : (l₁.engine.promise p).state = .pending := by rw [hself]; exact hpend
  have hres : (l₁.engine.promise p).resolved = true := by rw [hself]
  have hlock : (l.engine.promise p).Persists (l₁.engine.promise p) := by
    rw [hself]
    exact ⟨fun _ => rfl, fun _ => rfl, id⟩
  have hother : ∀ {r : Promise} q, (if q = p then r else l₁.engine.promise q) =
      if q = p then r else l.engine.promise q := by
    intro r q
    split
    · rfl
    · next hq => rw [hp, if_neg hq]
  cases hf with
  | settled kind v =>
    obtain ⟨hs, ho'⟩ := h₁.settleNow p kind v
    refine .of_change h hs p
      (fun q => (Engine.promise_settleNow hpend₁ kind v q).trans (hother q))
      (Promise.sane_settled kind v hres)
      (hlock.trans (Promise.persists_settled kind v hpend₁)) fun q => ?_
    rw [ho', ho, Promise.adopts_settled, ite_self, Nat.add_zero]
  | @adopts t ht =>
    obtain ⟨hs, ho'⟩ := h₁.link p t
    have hsane := h.sane p
    refine .of_change h hs p (fun q => (Engine.promise_link l₁.engine p t q).trans (hother q))
      ⟨fun hne => absurd hpend₁ hne, fun _ hn => ?_, fun _ _ => rfl, ?_, ?_⟩
      (hlock.trans ⟨fun _ => rfl, id, id⟩) fun q => ?_
    · rw [hres] at hn
      cases hn
    · rw [hself]
      exact hsane.paired
    · rw [hself]
      exact hsane.unhandled
    · have hone : ({ l₁.engine.promise p with following := some t } : Promise).adopts = 1 :=
        Promise.adopts_of_locked hpend₁ hres
      have hq := ho q
      rw [ho', hone]
      simp only [Duty.adopt.injEq, eq_comm (a := q)]
      omega

/-! ## Acts -/

theorem Keeps.effect {R : Rights} (h : l.Lawful) {e' : Engine H} (he : l.engine.Effect R e') :
    l.Keeps { l with engine := e' } := by
  cases he with
  | aside ha =>
    obtain ⟨hs, ho⟩ := h.sound.of_aside ha
    exact .of_promise h hs ha.promise fun p => ho _
  | newPromise =>
    obtain ⟨hs, ho⟩ := h.sound.newPromise
    have hp := Engine.promise_newPromise l.engine
    have hnew : l.engine.promise ⟨l.engine.promises.size⟩ = {} :=
      Engine.promise_of_size_le le_rfl
    refine .of_change h hs ⟨l.engine.promises.size⟩ hp (Promise.sane_new _) ?_ fun p => ?_
    · rw [hnew]
      exact ⟨fun hs => absurd rfl hs, nofun, nofun⟩
    · rw [ho, hnew]
      rfl
  | @newFunction c hc =>
    obtain ⟨hs, ho⟩ := h.sound.newFunction fun p kind heq => by rw [heq] at hc; exact hc.elim
    exact .of_promise h hs (fun _ => rfl) fun p => ho _
  | @spend f hf =>
    obtain ⟨hs, ho⟩ := h.sound.spend f fun _ p kind hcode => by
      rw [Engine.engagement?, hcode] at hf
      cases hf
    exact .of_promise h hs (fun _ => rfl) fun p => ho _
  | @decide _ p hr hR hfate =>
    obtain ⟨hs, ho⟩ := h.sound.lock p
    have hzero : (l.engine.promise p).adopts = 0 := Promise.adopts_of_unresolved hr
    exact .of_fate h hs (Engine.promise_lock l.engine p) ((h.sane p).pending hr)
      (fun q => by rw [ho, hzero]; simp) hfate
  | @performThen p f g capability hf hg hc =>
    obtain ⟨hs, ho⟩ := h.sound.performThen p none hf hg (hf.twins _)
    exact .of_attach h hs p (Engine.promise_performThen l.engine p f g capability) fun q => by
      rw [ho]
      simp
  | callback label code =>
    obtain ⟨hs, ho⟩ := h.sound.callback label code
    exact .of_promise h hs (fun _ => rfl) fun p => ho _

theorem Keeps.effects {R : Rights} (h : l.Lawful) {e' : Engine H} (he : l.engine.Effects R e') :
    l.Keeps { l with engine := e' } := by
  induction he with
  | refl => exact .refl h
  | tail _ he ih => exact ih.trans (Keeps.effect ih.lawful he)

/-- Changes on the stack and in async generators. -/
theorem Keeps.restack (h : l.Lawful) (he : l.engine.Alike l'.engine) (hj : l'.jobs = l.jobs)
    (hc : l'.called = l.called) (hs : ∀ p, .adopt p ∉ l'.stack) : l.Keeps l' := by
  obtain ⟨hsound, ho⟩ := h.sound.restack he hj hc hs
  refine .of_promise h hsound (fun p => by rw [Engine.promise, Engine.promise, he.promises])
    fun p => ?_
  have hp := ho (.adopt p)
  rw [List.count_eq_zero.2 (hs p), List.count_eq_zero.2 (h.sound.stack p)] at hp
  exact hp

/-- Jobs change hands. -/
theorem Keeps.reorder (h : l.Lawful) (he : l.engine.Alike l'.engine) (hj : l'.jobs.Perm l.jobs)
    (hc : l'.called = l.called) (hs : l'.stack = l.stack) : l.Keeps l' := by
  have hsound : l'.Sound := h.sound.rearrange he (fun j hjob => hj.mem_iff.1 hjob)
    (fun f hf => h.sound.called f (hc ▸ hf)) (hs ▸ h.sound.stack)
  exact .of_promise h hsound (fun p => by rw [Engine.promise, Engine.promise, he.promises])
    fun p => owed_of_perm he hj hc hs (.adopt p)

/-- Only callbacks of an adoption have its duty. -/
theorem code_of_engagement {e : Engine H} {f : FunctionRef} {p : PromiseRef} {kind : Settling}
    (h : e.engagement? f = some (.adopt p, kind)) : (e.callable f).code = .adopt p kind := by
  unfold Engine.engagement? at h
  cases hc : (e.callable f).code with
  | adopt q kind' =>
    rw [hc] at h
    cases h
    rfl
  | wake w kind' =>
    rw [hc] at h
    cases w <;> cases h
  | _ =>
    rw [hc] at h
    cases h

theorem promise_engage (e : Engine H) (q : PromiseRef) (c c' : Callable H) (p : PromiseRef) :
    (e.engage q c c').promise p = if p = q then
      (e.promise q).attach (some (e.newFunction c).1)
        (some ((e.newFunction c).2.newFunction c').1) none
      else e.promise p :=
  Engine.promise_performThen _ q _ _ none p

end Ledger

open Ledger in
/-- Every act keeps a lawful ledger lawful. -/
theorem Act.keeps {R : Rights} {l l' : Ledger H} (h : Act R l l') (hl : l.Lawful) : l.Keeps l' := by
  have hcons : ∀ {d : Duty}, (∀ p, d ≠ .adopt p) → ∀ p, .adopt p ∉ d :: l.stack := by
    intro d hd p hp
    rcases List.mem_cons.1 hp with hp | hp
    · exact hd p hp.symm
    · exact hl.sound.stack p hp
  have htail : ∀ {d : Duty} {rest : List Duty}, l.stack = d :: rest → ∀ p, .adopt p ∉ rest :=
    fun hs p hp => hl.sound.stack p (hs ▸ List.mem_cons_of_mem _ hp)
  cases h with
  | effect he => exact .effect hl he
  | @pop id j jobs hpop hj hc =>
    obtain ⟨hs, ho⟩ := hl.sound.pop hpop hj hc rfl
    refine .of_promise hl hs (fun _ => rfl) fun p => ?_
    have hnone : j.results.count (.adopt p) = 0 := by
      refine List.count_eq_zero.2 fun hp => ?_
      cases j with
      | reaction r v =>
        obtain ⟨q, -, hq⟩ := List.mem_map.1 hp
        cases hq
      | _ => cases hp
    rw [ho, hnone]
    rfl
  | @attach id p q jobs hpop =>
    obtain ⟨hs, ho⟩ := hl.sound.attach hpop
    exact .of_attach hl hs q (promise_engage { l.engine with jobs } q _ _) fun s => ho _
  | @adopt f p kind e e' hf hcode hu ha hfate =>
    obtain ⟨hpend, hres⟩ := hl.due hf hcode
    have hdue : (l.engine.promise p).adopts = 1 := Promise.adopts_of_locked hpend hres
    obtain ⟨hs, ho⟩ := hl.sound.adopt hf hcode ((hl.owed p).trans hdue.le) ha
    refine .of_fate hl hs (fun q => ?_) hpend (fun q => ?_) hfate
    · show e.promise q = _
      rw [ha.promise, Engine.promise_used]
      split
      · next hq => rw [hq, ← hres]
      · rfl
    · have hq := ho (.adopt q)
      simp only [Duty.adopt.injEq] at hq
      rw [hdue]
      exact hq
  | @lapse f hf hu =>
    obtain ⟨hsome, hlive⟩ := hl.sound.called f hf
    obtain ⟨⟨d, kind⟩, hen⟩ := Option.isSome_iff_exists.1 hsome
    obtain ⟨hs, ho⟩ := hl.sound.uncall hf hen
    refine .of_promise hl hs (fun _ => rfl) fun p => ?_
    have hne : d ≠ .adopt p := by
      rintro rfl
      have husage := hlive p kind (code_of_engagement hen)
      rw [hu] at husage
      cases husage
    have hp := ho (.adopt p)
    rw [if_neg hne] at hp
    exact hp
  | wake hf hen hd hu =>
    obtain ⟨hs, ho⟩ := hl.sound.wake hf hen hd rfl
    exact .of_promise hl hs (Engine.promise_used l.engine _) fun p => ho _
  | @start d p hd ho =>
    refine .restack hl ⟨rfl, rfl, rfl⟩ rfl rfl (hcons fun q hq => ?_)
    rw [hq] at hd
    cases hd
  | discharge hs hd => exact .restack hl ⟨rfl, rfl, rfl⟩ rfl rfl (htail hs)
  | @engage d rest q c c' hs hd =>
    have hrest : l.Keeps { l with stack := rest } :=
      .restack hl ⟨rfl, rfl, rfl⟩ rfl rfl (htail hs)
    obtain ⟨hs', ho⟩ := hrest.lawful.sound.engage q hd
    refine hrest.trans (.of_attach hrest.lawful hs' q (promise_engage l.engine q c c') fun p => ?_)
    have hne : d ≠ .adopt p := fun heq =>
      hl.sound.stack p (by rw [hs, heq]; exact List.mem_cons_self)
    rw [ho, if_neg hne]
    rfl
  | request a c hr hs =>
    have hnew := Keeps.effect (R := R) hl (.newPromise l.engine)
    exact hnew.trans (.restack hnew.lawful ⟨rfl, rfl, rfl⟩ rfl rfl hl.sound.stack)
  | look a hs => exact .restack hl ⟨rfl, rfl, rfl⟩ rfl rfl hl.sound.stack
  | idle hs hi => exact .restack hl ⟨rfl, rfl, rfl⟩ rfl rfl hl.sound.stack
  | take hs hb hq ht => exact .restack hl ⟨rfl, rfl, rfl⟩ rfl rfl (hcons nofun)
  | hold hs => exact .restack hl ⟨rfl, rfl, rfl⟩ rfl rfl hl.sound.stack
  | @answer a r rest s kind v hs ha hb hv =>
    have hrest : l.Keeps { l with engine := l.engine.setAsyncState a s, stack := rest } :=
      .restack hl ⟨rfl, rfl, rfl⟩ rfl rfl (htail hs)
    exact hrest.trans (.effects hrest.lawful
      (Engine.settle_effects (R := Rights.all) (fun _ => trivial) kind v))
  | abandon hc hs => exact .restack hl ⟨rfl, rfl, rfl⟩ rfl rfl nofun
  | takeOff hpop => exact .reorder hl ⟨rfl, rfl, rfl⟩ (jobs_takeOff hpop) rfl rfl
  | putBack hh => exact .reorder hl ⟨rfl, rfl, rfl⟩ (jobs_putBack hh) rfl rfl

theorem Acts.keeps {R : Rights} {l l' : Ledger H} (h : Acts R l l') (hl : l.Lawful) :
    l.Keeps l' := by
  induction h with
  | refl => exact .refl hl
  | tail _ h ih => exact ih.trans (h.keeps ih.lawful)

/-! ## Runs -/

theorem Ledger.lawful_start : (({} : World H).ledger []).Lawful := by
  have hnew : ∀ p, (({} : World H).ledger []).engine.promise p = {} :=
    fun p => Engine.promise_of_size_le (Nat.zero_le _)
  refine ⟨⟨fun p => ?_, nofun, nofun, nofun⟩, fun p => ?_, fun p => Nat.zero_le _⟩
  · rw [hnew]
    exact .nil
  · rw [hnew]
    exact Promise.sane_new 0

/-- Dropping the jobs that wait keeps a ledger lawful, although adoptions get lost. -/
theorem Ledger.Lawful.drop {l : Ledger H} (h : l.Lawful) {e : Engine H} (he : l.engine.Alike e)
    (hj : e.waitingJobs = []) : ({ l with engine := e } : Ledger H).Lawful := by
  have hjobs : ({ l with engine := e } : Ledger H).jobs = l.held := by
    simp only [Ledger.jobs, hj, List.nil_append]
  have hsub : l.held.Sublist l.jobs := List.sublist_append_right _ _
  have hp : ∀ p, e.promise p = l.engine.promise p := fun p => by
    rw [Engine.promise, Engine.promise, he.promises]
  refine ⟨h.sound.rearrange he (fun j hjob => hsub.subset (hjobs ▸ hjob)) h.sound.called
    h.sound.stack, fun p => ?_, fun p => ?_⟩
  · show (e.promise p).Sane
    rw [hp]
    exact h.sane p
  · show _ ≤ (e.promise p).adopts
    have hcount : l.engine.jobCount (.adopt p) l.held ≤ l.engine.jobCount (.adopt p) l.jobs :=
      hsub.countP_le
    have hle := h.owed p
    rw [Ledger.owed] at hle
    rw [Ledger.owed_rearrange he, hjobs, hp]
    simp only
    omega

/-- A world whose ledger is lawful. -/
def World.Lawful (w : World H) : Prop :=
  w.config.engine.Backed ∧ ∃ issued, (w.ledger issued).Lawful

/-- A step that does not drop the jobs that wait keeps the balance of adoptions. -/
theorem Step.keeps {w w' : World H} {m : Move H} (h : Step w m w') (hm : m.clears = false)
    (hbacked : w.config.engine.Backed) {issued : List (AsyncGeneratorRef × Request)}
    (hl : (w.ledger issued).Lawful) :
    (w.ledger issued).Keeps (w'.ledger (w.issued issued m)) :=
  (h.acts hm (Rights.all_covers w m) hbacked issued).keeps hl

theorem Step.lawful {w w' : World H} {m : Move H} (h : Step w m w') (hw : w.Lawful) :
    w'.Lawful ∧ ∀ p, (w.config.engine.promise p).Persists (w'.config.engine.promise p) := by
  obtain ⟨hbacked, issued, hl⟩ := hw
  have hbacked' := h.backed hbacked
  cases hm : m.clears with
  | false =>
    have hk := h.keeps hm hbacked hl
    exact ⟨⟨hbacked', _, hk.lawful⟩, hk.persists⟩
  | true =>
    obtain ⟨e, hledger, he, -, hj⟩ := h.clears hm issued
    have hengine : w'.config.engine = e := congrArg Ledger.engine hledger
    refine ⟨⟨hbacked', _, hledger ▸ hl.drop he hj⟩, fun p => ?_⟩
    rw [hengine, Engine.promise, Engine.promise, he.promises]
    exact .refl _

/-- What a promise has settled with does not change. -/
theorem Step.keeps_state {w w' : World H} {m : Move H} (h : Step w m w') (hw : w.Lawful)
    {p : PromiseRef} {kind : Settling} {v : Value}
    (hs : (w.config.engine.promise p).state = kind.state v) :
    (w'.config.engine.promise p).state = kind.state v :=
  (((h.lawful hw).2 p).settled (hs ▸ kind.state_ne_pending v)).trans hs

theorem Run.lawful {es : List (Event H)} {w : World H} (h : Run es w) : w.Lawful :=
  h.preserve (fun hs hw => (hs.lawful hw).1)
    ⟨Run.backed .refl, [], Ledger.lawful_start⟩

/-- **The life of a promise**: at every point of every run its fields fit together,
and whatever happens from there on, a settled promise keeps its state, a decided
fate stays decided and a handled promise stays handled. -/
theorem Promise.lifecycle {es es' : List (Event H)} {w w' : World H} (h : Run es w)
    (h' : Steps w es' w') (p : PromiseRef) :
    (w.config.engine.promise p).Sane ∧
      (w.config.engine.promise p).Persists (w'.config.engine.promise p) := by
  have hw : w.Lawful := h.lawful
  have hsane : (w.config.engine.promise p).Sane := by
    obtain ⟨-, issued, hl⟩ := hw
    exact hl.sane p
  refine ⟨hsane, h'.relate
    (R := fun w w' => (w.config.engine.promise p).Persists (w'.config.engine.promise p))
    (fun _ => .refl _) Persists.trans (fun hs hw => ⟨(hs.lawful hw).1, (hs.lawful hw).2 p⟩) hw⟩

/-- A promise that adopts another one and is rejected by hand in vain. -/
theorem Promise.lifecycle_adopting :
    let e : Engine Unit := (({} : Engine Unit).newPromise.2.newPromise.2).resolve ⟨0⟩ (.promise ⟨1⟩)
    let e' := e.reject ⟨0⟩ .undefined
    (e.promise ⟨0⟩).Sane ∧ (e.promise ⟨0⟩).following = some ⟨1⟩ ∧
      (e.promise ⟨0⟩).Persists (e'.promise ⟨0⟩) := by
  have h₁ : Step ({} : World Unit) (.perform .newPromise) _ := .perform_free _ rfl rfl
  have h₂ := Steps.step (.step .refl h₁) (.perform_free .newPromise rfl rfl)
  have h₃ := h₂.step (.perform_free (.resolve ⟨0⟩ (.promise ⟨1⟩)) rfl rfl)
  have hlife := Promise.lifecycle h₃ (.step .refl (.perform_free (.reject ⟨0⟩ .undefined) rfl rfl)) ⟨0⟩
  exact ⟨hlife.1, rfl, hlife.2⟩

end Microtask
