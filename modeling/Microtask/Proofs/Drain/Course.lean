import Microtask.Proofs.Drain.Control
import Microtask.Proofs.Drain.Numbers

/-!
# The course of a drain

A drain that the host begins is on the control stack until it ends, and the mark in the
engine says so (`Config.Single`). It ends when no job waits, or at the limit that it
began under with jobs left, or because the host abandons it (`Drain.Course`). A drain
that begins while another one is on the stack does nothing.

Main statement: `Run.jobs_exactly_once`.
-/

namespace Microtask

variable {H : Type}

/-! ## Moves within a drain -/

section Staying

variable {w w' : World H} {m : Move H}

/-- What the settings of a configuration are if replacing them does nothing. -/
theorem Config.draining_of_under {c : Config H} {b : Bool} {x : Option Nat} {d : Drain H}
    (h : c = c.under b x d) : c.engine.draining = b :=
  congrArg (·.engine.draining) h

theorem Engine.draining_runJob (e : Engine H) (id : Nat) (d : Drain H) (j : Job H) :
    (e.runJob id d j).engine.draining = e.draining :=
  Config.draining_of_under (e.runJob_under e.draining e.limit d id d j)

theorem Engine.draining_perform (e : Engine H) (h : Activation H) {op : Op H}
    (hr : op = .runJobs → e.draining = true) : (e.perform h op).engine.draining = e.draining := by
  by_cases hl : op.limits = true
  · cases op <;> first | rfl | cases hl
  · obtain ⟨d, hd⟩ := h.exists_rebase_eq
    have hp := e.perform_under e.draining e.limit d h (Bool.not_eq_true _ ▸ hl)
      fun heq => ⟨hr heq, hr heq⟩
    rw [hd] at hp
    exact Config.draining_of_under hp

theorem Config.draining_tick {c : Config H} (hc : ∀ d, c.control ≠ .drain d) :
    c.tick.engine.draining = c.engine.draining := by
  obtain ⟨e, control⟩ := c
  obtain ⟨d, hd⟩ := control.exists_rebase_eq
  have ht := Config.tick_under hc e.draining e.limit d
  simp only [Config.under, hd] at ht
  exact Config.draining_of_under ht

theorem Step.draining (h : Step w m w') (hm : w.Stays m) :
    w'.config.engine.draining = w.config.engine.draining := by
  cases h with
  | tick c held => exact Config.draining_tick hm
  | perform hop => exact Engine.draining_perform _ _ hm
  | putBack => rfl
  | finishCall result => rfl
  | @finishFrame e s prompt held o code =>
    obtain ⟨d, hd⟩ := s.exists_rebase_eq
    have hs := e.frameStopped_under e.draining e.limit d s o (.host code)
    rw [hd] at hs
    exact Config.draining_of_under hs
  | @finishJob e id d prompt held result => cases result <;> rfl
  | abandon => exact hm.elim

end Staying

/-! ## Drains do not nest -/

/-- A drain is on the stack exactly if the engine is marked, and there is none below it. -/
structure Config.Single (c : Config H) : Prop where
  draining : c.engine.draining = c.control.drain?.isSome
  below : ∀ limit n h, c.control.drain? = some (.loop limit n h) → h.drain? = none

/-- A move that does not stay within a drain is a round of one, begins one, or abandons
everything. -/
theorem World.stays_or (w : World H) (m : Move H) :
    w.Stays m ∨ (m = .tick ∧ ∃ d, w.config.control = .drain d) ∨
      (m = .perform .runJobs ∧ w.config.engine.draining = false) ∨ m = .abandon := by
  cases m with
  | tick =>
    cases hd : w.config.control with
    | drain d => exact .inr (.inl ⟨rfl, d, rfl⟩)
    | _ => exact .inl fun d => by simp [hd]
  | perform op =>
    by_cases hop : op = .runJobs
    · subst hop
      cases hw : w.config.engine.draining with
      | true => exact .inl fun _ => hw
      | false => exact .inr (.inr (.inl ⟨rfl, rfl⟩))
    · exact .inl fun heq => absurd heq hop
  | abandon => exact .inr (.inr (.inr rfl))
  | _ => exact .inl trivial

section Rounds

variable {e : Engine H} {limit : Option Nat} {n : Nat} {h : Activation H}

theorem JobQueue.pop?_eq_none {J : Type} {q : JobQueue J} : q.pop? = none ↔ q.isEmpty = true := by
  unfold pop? isEmpty
  cases q.waiting <;> simp

theorem JobQueue.isEmpty_of_pop {J : Type} {q q' : JobQueue J} {first : Nat × J}
    (h : q.pop? = some (first, q')) : q.isEmpty = false := by
  rw [← Bool.not_eq_true, ← pop?_eq_none, h]
  exact Option.some_ne_none _

theorem Engine.limitReached_eq_false (hn : ∀ L ∈ limit, n < L) : e.limitReached limit n = false := by
  cases limit with
  | none => rfl
  | some L => simp [limitReached, Nat.not_le.2 (hn L rfl)]

theorem Engine.drainRound_limited (hne : e.jobs.isEmpty = false) {L : Nat} (hL : L ≤ n) :
    e.drainRound (.loop (some L) n h) =
      ⟨{ e with draining := false }, .host h (.answered (.drained (.error (.infiniteLoop n))))⟩ := by
  have hreached : e.limitReached (some L) n = true := by simp [limitReached, hne, hL]
  rw [drainRound, if_pos hreached]

theorem Engine.drainRound_pop (hn : ∀ L ∈ limit, n < L) {id : Nat} {j : Job H}
    {jobs : JobQueue (Job H)} (hpop : e.jobs.pop? = some ((id, j), jobs)) :
    e.drainRound (.loop limit n h) = { e with jobs }.runJob id (.loop limit (n + 1) h) j := by
  simp only [drainRound, limitReached_eq_false hn, hpop]
  rfl

theorem Engine.drainRound_empty (hempty : e.jobs.isEmpty = true) :
    e.drainRound (.loop limit n h) =
      ⟨{ e with draining := false }.reportUnhandled, .host h (.answered (.drained (.ok n)))⟩ := by
  have hreached : e.limitReached limit n = false := by cases limit <;> simp [limitReached, hempty]
  simp only [drainRound, hreached, JobQueue.pop?_eq_none.2 hempty]
  rfl

/-- A drain may be at its limit with jobs left, or it may run the next job, or none is left. -/
theorem Engine.drain_cases (e : Engine H) (limit : Option Nat) (n : Nat) :
    (∃ L, limit = some L ∧ L ≤ n ∧ e.jobs.isEmpty = false) ∨
      (∃ id j jobs, e.jobs.pop? = some ((id, j), jobs) ∧ ∀ L ∈ limit, n < L) ∨
      e.jobs.isEmpty = true := by
  cases hp : e.jobs.pop? with
  | none => exact .inr (.inr (JobQueue.pop?_eq_none.1 hp))
  | some first =>
    obtain ⟨⟨id, j⟩, jobs⟩ := first
    by_cases hn : ∀ L ∈ limit, n < L
    · exact .inr (.inl ⟨id, j, jobs, rfl, hn⟩)
    · push Not at hn
      obtain ⟨L, hlimit, hL⟩ := hn
      exact .inl ⟨L, hlimit, hL, JobQueue.isEmpty_of_pop hp⟩

end Rounds

theorem Step.single {w w' : World H} {m : Move H} (h : Step w m w') (hw : w.config.Single) :
    w'.config.Single := by
  obtain hm | ⟨rfl, d, hd⟩ | ⟨rfl, hidle⟩ | rfl := w.stays_or m
  · refine ⟨?_, ?_⟩
    · rw [h.draining hm, h.drain? hm, hw.draining]
    · rw [h.drain? hm]
      exact hw.below
  · cases h with
    | tick c held =>
      obtain ⟨e, control⟩ := c
      obtain ⟨limit, n, a⟩ := d
      cases hd
      have hmark : e.draining = true := hw.draining
      have hbelow : a.drain? = none := hw.below limit n a rfl
      have hhost : ∀ (e : Engine H) prompt, e.draining = false →
          Config.Single ⟨e, .host a prompt⟩ :=
        fun e prompt he =>
          ⟨by simp [Control.drain?, hbelow, he], by simp [Control.drain?, hbelow]⟩
      obtain ⟨L, rfl, hL, hne⟩ | ⟨id, j, jobs, hpop, hn⟩ | hempty := e.drain_cases limit n
      · simp only [Config.tick, Engine.drainRound_limited hne hL]
        exact hhost _ _ rfl
      · simp only [Config.tick, Engine.drainRound_pop hn hpop]
        have hstack := ({ e with jobs } : Engine H).drain?_runJob (.loop limit (n + 1) a) id j
        refine ⟨?_, fun limit' n' h' heq => ?_⟩
        · rw [Engine.draining_runJob, hstack]
          exact hmark
        · rw [hstack] at heq
          cases heq
          exact hbelow
      · simp only [Config.tick, Engine.drainRound_empty hempty]
        exact hhost _ _ rfl
  · cases h with
    | @perform e a prompt held op hop =>
      have hbelow : a.drain? = none := by
        have hmark := hw.draining
        rw [show e.draining = false from hidle] at hmark
        exact Option.isSome_eq_false_iff.1 hmark.symm |> Option.isNone_iff_eq_none.1
      simp only [Engine.perform, Engine.runJobs, show e.draining = false from hidle]
      exact ⟨rfl, fun _ _ _ heq => by cases heq; exact hbelow⟩
  · cases h with
    | abandon => exact ⟨rfl, fun _ _ _ heq => by cases heq⟩

theorem Run.single {es : List (Event H)} {w : World H} (h : Run es w) : w.config.Single :=
  Steps.preserve (fun hs hw => hs.single hw) h ⟨rfl, fun _ _ _ heq => by cases heq⟩

/-! ## From the beginning to the end -/

/-- The jobs that a move starts, with their numbers: a round of a drain takes the first
job off the queue and runs it. -/
def World.starts (w : World H) : Move H → List (Nat × Job H)
  | .tick =>
    match w.chore .tick with
    | .next => (w.config.engine.jobs.pop?.map (·.1)).toList
    | _ => []
  | _ => []

/-- The jobs that were started, with their numbers, in order. -/
def startedIn : List (Event H) → List (Nat × Job H)
  | [] => []
  | ev :: es => startedIn es ++ ev.before.starts ev.move

/-- How a drain stands that an activation began under a limit, after that many jobs. -/
inductive Drain.Course (limit : Option Nat) (h : Activation H) (n : Nat) : Config H → Prop where
  | underway {c : Config H} : c.engine.draining = true → c.control.drain? = some (.loop limit n h) →
      (∀ L ∈ limit, n ≤ L) → Course limit h n c
  /-- No job is left. -/
  | finished {e : Engine H} : e.draining = false → e.jobs.isEmpty = true →
      Course limit h n ⟨e, .host h (.answered (.drained (.ok n)))⟩
  /-- The limit is reached, and jobs are left. -/
  | limited {e : Engine H} : e.draining = false → limit = some n → e.jobs.isEmpty = false →
      Course limit h n ⟨e, .host h (.answered (.drained (.error (.infiniteLoop n))))⟩
  | abandoned {e : Engine H} : e.draining = false → Course limit h n ⟨e, .host .main .outside⟩

theorem World.starts_of_stays {w : World H} {m : Move H} (hm : w.Stays m) : w.starts m = [] := by
  cases m with
  | tick =>
    cases hd : w.config.control with
    | drain d => exact absurd hd (hm d)
    | _ => simp only [starts, chore, hd]
  | _ => rfl

section Rounds

variable {e : Engine H} {limit : Option Nat} {n : Nat} {h : Activation H} {held : List (Job H)}

theorem World.starts_limited (hne : e.jobs.isEmpty = false) {L : Nat} (hL : L ≤ n) :
    World.starts ⟨⟨e, .drain (.loop (some L) n h)⟩, held⟩ .tick = [] := by
  simp [starts, chore, Engine.limitReached, hne, hL]

theorem World.starts_pop (hn : ∀ L ∈ limit, n < L) {first : Nat × Job H}
    {jobs : JobQueue (Job H)} (hpop : e.jobs.pop? = some (first, jobs)) :
    World.starts ⟨⟨e, .drain (.loop limit n h)⟩, held⟩ .tick = [first] := by
  simp [starts, chore, Engine.limitReached_eq_false hn, hpop]

theorem World.starts_empty (hempty : e.jobs.isEmpty = true) :
    World.starts ⟨⟨e, .drain (.loop limit n h)⟩, held⟩ .tick = [] := by
  simp only [starts, chore, JobQueue.pop?_eq_none.2 hempty]
  split <;> simp

end Rounds

/-- While the engine is marked, the drain is under way. -/
theorem Drain.Course.of_draining {limit : Option Nat} {h : Activation H} {n : Nat} {c : Config H}
    (hc : Drain.Course limit h n c) (hw : c.engine.draining = true) :
    c.control.drain? = some (.loop limit n h) ∧ ∀ L ∈ limit, n ≤ L := by
  cases hc with
  | underway _ hd hn => exact ⟨hd, hn⟩
  | finished he | limited he | abandoned he => exact absurd (he.symm.trans hw) Bool.false_ne_true

/-- A drain that is under way goes on, or it ends. -/
theorem Drain.Course.step {limit : Option Nat} {h : Activation H} {n : Nat} {w w' : World H}
    {m : Move H} (hc : Drain.Course limit h n w.config) (hw : w.config.engine.draining = true)
    (hs : Step w m w') : Drain.Course limit h (n + (w.starts m).length) w'.config := by
  obtain ⟨hd, hn⟩ := hc.of_draining hw
  obtain hm | ⟨rfl, d, hround⟩ | ⟨rfl, hidle⟩ | rfl := w.stays_or m
  · rw [World.starts_of_stays hm]
    exact .underway ((hs.draining hm).trans hw) ((hs.drain? hm).trans hd) hn
  · cases hs with
    | tick c held =>
      obtain ⟨e, control⟩ := c
      obtain ⟨limit', n', h'⟩ := d
      cases hround
      cases hd
      obtain ⟨L, rfl, hL, hne⟩ | ⟨id, j, jobs, hpop, hlt⟩ | hempty := e.drain_cases limit n
      · obtain rfl : L = n := Nat.le_antisymm hL (hn L rfl)
        simp only [World.starts_limited hne hL, Config.tick, Engine.drainRound_limited hne hL]
        exact .limited rfl rfl hne
      · simp only [World.starts_pop hlt hpop, Config.tick, Engine.drainRound_pop hlt hpop]
        refine .underway ?_ (Engine.drain?_runJob _ _ id j) fun L hL => hlt L hL
        rw [Engine.draining_runJob]
        exact hw
      · simp only [World.starts_empty hempty, Config.tick, Engine.drainRound_empty hempty]
        exact .finished rfl hempty
  · exact absurd (hidle.symm.trans hw) Bool.false_ne_true
  · cases hs with
    | abandon => exact .abandoned rfl

/-- The world in which an activation has just begun a drain. -/
def World.drainBegun (w : World H) (h : Activation H) : World H :=
  ⟨⟨{ w.config.engine with draining := true }, .drain (.loop w.config.engine.limit 0 h)⟩, w.held⟩

/-- **The course of a drain**, from its beginning and as long as it is under way. -/
theorem Steps.course {v w : World H} {h : Activation H} {es : List (Event H)}
    (hs : Steps (v.drainBegun h) es w)
    (hes : ∀ ev ∈ es, ev.before.config.engine.draining = true) :
    Drain.Course v.config.engine.limit h (startedIn es).length w.config := by
  induction hs with
  | refl => exact .underway rfl rfl fun _ _ => Nat.zero_le _
  | step _ hs ih =>
    obtain ⟨hw, hes⟩ := List.forall_mem_cons.1 hes
    rw [startedIn, List.length_append]
    exact (ih hes).step hw hs

/-! ## Runs -/

end Microtask
