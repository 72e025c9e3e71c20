import P101Filesystem.Walk.Contexts
import P101Filesystem.Walk.Nest
import P101Filesystem.Effect.Numbers

/-!
# The stopped flag

A walk's context has a flag that the trampoline sets at any nonzero callback result and
nothing clears. At every moment it tells whether all results that the native walk has heard
so far are zero: it does not tell whether the walk has ended because of one.
-/
namespace P101Filesystem

open Effect

/-- How far a call is with a flag: a walk clears the one of its own context and reads it once
its native walk has returned; a trampoline that got a nonzero result sets one. -/
inductive FlagPhase where
  | raw | cleared | read (stopped : Word)
  | quiet | heard (result : Word) | marked (result : Word)
  | plain
  deriving DecidableEq, Repr

/-- Operations that touch no flag and call nothing outside. -/
def Op.flagless : Op → Bool
  | .native _ _ | .callback _ _ | .loadField _ _ .stopped | .storeField _ _ .stopped _ => false
  | _ => true

inductive FlagStep (b : Word) : Role → FlagPhase → Op → Word → FlagPhase → Prop
  | other {r ph o v} : o.flagless = true → FlagStep b r ph o v ph
  | clear {k fn v} :
      FlagStep b (.walk k fn) .raw (.storeField k b .stopped 0) v .cleared
  | run {k fn args v} : FlagStep b (.walk k fn) .cleared (.native k.api args) v .cleared
  | read {k fn u} : FlagStep b (.walk k fn) .cleared (.loadField k b .stopped) u (.read u)
  | call {k fn args r} : FlagStep b (.trampoline k) .quiet (.callback fn args) r (.heard r)
  | mark {k p r v} : r ≠ 0 →
      FlagStep b (.trampoline k) (.heard r) (.storeField k p .stopped 1) v (.marked r)
  | native {f args v} : FlagStep b .plain .plain (.native f args) v .plain

def Role.flagFirst : Role → FlagPhase
  | .walk _ _ => .raw
  | .trampoline _ => .quiet
  | .plain => .plain

/-- A trampoline has set the flag unless it returns 0. -/
def Role.FlagFinal : Role → FlagPhase → Word → Prop
  | .trampoline _, ph, v => (ph = .heard 0 ∧ v = 0) ∨ (ph = .marked v ∧ v ≠ 0)
  | _, _, _ => True

def Role.flagProtocol (b : Word) (r : Role) : Protocol Op Word FlagPhase :=
  ⟨FlagStep b r, r.FlagFinal⟩

section
open Protocol
variable {b : Word} {r : Role} {ph : FlagPhase}

/-- An operation that touches no flag. -/
theorem flag_pass {o : Op} {next : Word → Code Word} (ho : o.flagless = true)
    (h : ∀ v, (r.flagProtocol b).Keeps ph (next v)) :
    (r.flagProtocol b).Keeps ph (.perform o next) :=
  keeps_step (fun _ => ph) (fun _ => .other ho) h

theorem walkTail_flags (π : Platform) (k : Kind) (fn b retVal : Word) :
    ((Role.walk k fn).flagProtocol b).Keeps .cleared (walkTail π k b retVal) := by
  have exits : ∀ ph, ((Role.walk k fn).flagProtocol b).Keeps ph
      (.perform (.traceExit k.api) fun _ => (.done retVal : Code Word)) :=
    fun ph => flag_pass rfl fun _ => trivial
  rw [walkTail_eq]
  refine flag_pass rfl fun savedErrno => flag_pass rfl fun previous => flag_pass rfl fun _ => ?_
  refine keeps_ite (keeps_step .read (fun _ => .read) fun stopped => ?_) (exits _)
  exact keeps_ite (flag_pass rfl fun _ => exits _) (exits _)

theorem walk_flags (π : Platform) (k : Kind) (path fn limit : Word) (args : List Word) (b : Word) :
    ((Role.walk k fn).flagProtocol b).Keeps .raw (walk π k path fn limit args b) := by
  have raises : ∀ code, ((Role.walk k fn).flagProtocol b).Keeps .raw
      (.perform (.raise .errno none code) fun _ =>
        .perform (.traceExit k.api) fun _ => (.done (-1) : Code Word)) :=
    fun code => flag_pass rfl fun _ => flag_pass rfl fun _ => trivial
  rw [walk_eq]
  refine flag_pass rfl fun _ => flag_pass rfl fun fault => keeps_ite (raises _) ?_
  refine keeps_ite (raises _) (flag_pass rfl fun _ => ?_)
  refine keeps_step (fun _ => .cleared) (fun _ => .clear) fun _ => ?_
  refine flag_pass rfl fun previous => flag_pass rfl fun _ => flag_pass rfl fun _ => ?_
  refine flag_pass rfl fun _ => ?_
  exact keeps_step (fun _ => .cleared) (fun _ => .run) fun retVal => walkTail_flags π k fn b retVal

theorem trampoline_flags (k : Kind) (args : List Word) (b : Word) :
    ((Role.trampoline k).flagProtocol b).Keeps .quiet (trampoline k args) := by
  rw [trampoline_eq]
  refine flag_pass rfl fun context => flag_pass rfl fun callback => ?_
  refine keeps_step .heard (fun _ => .call) fun result => ?_
  rw [trampolineTail_eq]
  split
  · next hr => exact keeps_step (fun _ => .marked result) (fun _ => .mark hr) fun _ => .inr ⟨rfl, hr⟩
  · next hr =>
    have hr : result = 0 := by simpa using hr
    exact .inl ⟨by rw [hr], hr⟩

/-- Every call keeps to the flag protocol of its role. -/
theorem code_flags (π : Platform) (c : Call) (b : Word) :
    (c.role.flagProtocol b).Keeps c.role.flagFirst (c.code π b) := by
  cases hr : c.role with
  | walk k fn =>
    obtain ⟨w, rfl, rfl, rfl⟩ := Call.exists_walkCall (Call.walk_of_role.mp hr)
    rw [w.call_code]
    exact walk_flags π w.kind _ _ _ _ _
  | trampoline k =>
    cases c with
    | callFtwCallback path status type =>
      cases hr
      exact trampoline_flags .ftw _ _
    | callNftwCallback path status type walk =>
      cases hr
      exact trampoline_flags .nftw _ _
    | _ => cases hr
  | plain =>
    obtain ⟨f, hf, hftw, hnftw⟩ := api_of_plain hr
    refine keeps_of_avoids (code_shape π b hf).footprint (fun o v ho => ?_) fun _ => trivial
    cases o with
    | native => exact .native
    | callback | getActive | setActive | loadField | storeField =>
      simp [Outside, Op.footprint, hftw, hnftw] at ho
    | traceEntry | traceExit | checkFault | raise | getErrno | setErrno | strlen | load | record =>
      exact .other rfl

end

/-! ## The flags of a stack -/

/-- The results that the native walk of a call has heard. -/
def walkHeard (past : List Event) : List Word := (natives past).flatMap fun n => n.2.2.heard

def allZero (results : List Word) : Bool := results.all (· = 0)

/-- The answers a call got when it read a flag. -/
def flagReads (past : List Event) : List Word :=
  past.filterMap fun e => match e.op with
    | .loadField _ _ .stopped => some e.answer
    | _ => none

def Shared.stopped (s : Shared) (p : Word) : Option Word := (s.cells p).map Context.stopped

/-- The flag at `p` is set unless `clear` holds. -/
def Flagged (s : Shared) (p : Word) (clear : Bool) : Prop :=
  ∃ u, s.stopped p = some u ∧ (u = 0 ↔ clear = true)

/-- What a call knows of its flag in a phase. `calm` says that whatever the walk hears right
now has set no flag. -/
def FlagHolds (s : Shared) (act : Activation) (calm : Bool) : FlagPhase → Prop
  | .raw => walkHeard act.past = [] ∧ flagReads act.past = []
  | .cleared => flagReads act.past = [] ∧ Flagged s act.base (allZero (walkHeard act.past) && calm)
  | .read u => flagReads act.past = [u] ∧ (u = 0 ↔ allZero (walkHeard act.past) = true)
  | _ => False

/-- A trampoline that has marked a context has a nonzero result still to return. -/
def FlagPhase.calm : FlagPhase → Bool
  | .marked _ => false
  | _ => true

/-- A native walk passes on what it hears to the wrapper it runs for. -/
def Party.calm (g : Party) (heard : List Word) (above : Bool) : Bool :=
  match g with
  | .native .ftw _ => allZero heard && above
  | .native .nftw _ => allZero heard && above
  | _ => true

inductive Flags (s : Shared) : Bool → List Frame → Prop
  | nil {calm} : Flags s calm []
  | outside {calm g heard since below} : Flags s (g.calm heard calm) below →
      Flags s calm (.outside g heard since :: below)
  | code {calm ph id act rest below} : Flags s ph.calm below →
      (act.entry.role.flagProtocol act.base).Keeps ph rest →
      (act.entry.walk.isSome → FlagHolds s act calm ph) → Flags s calm (.code id act rest :: below)

/-- A call that is no walk knows of no flag. -/
theorem Flags.bystander {s : Shared} {calm : Bool} {ph : FlagPhase} {id : Nat} {act : Activation}
    {rest : Code Word} {below : List Frame} (h : Flags s ph.calm below)
    (hk : (act.entry.role.flagProtocol act.base).Keeps ph rest) (hw : act.entry.walk = none) :
    Flags s calm (.code id act rest :: below) :=
  .code h hk fun hsome => by simp [hw] at hsome

@[simp] theorem allZero_nil : allZero [] = true := rfl

@[simp] theorem allZero_append (l r : List Word) : allZero (l ++ r) = (allZero l && allZero r) :=
  List.all_append

@[simp] theorem allZero_singleton (r : Word) : allZero [r] = decide (r = 0) := by
  simp [allZero]

theorem allZero_iff {l : List Word} : allZero l = true ↔ ∀ r ∈ l, r = 0 := by
  simp [allZero]

@[simp] theorem walkHeard_append (es fs : List Event) :
    walkHeard (es ++ fs) = walkHeard es ++ walkHeard fs := by
  simp [walkHeard]

@[simp] theorem flagReads_append (es fs : List Event) :
    flagReads (es ++ fs) = flagReads es ++ flagReads fs := List.filterMap_append

section
variable (heard : List Word) (v : Word) (before after : Local) (k : Kind) (p u : Word) (f : Field)

@[simp] theorem walkHeard_loadField :
    walkHeard [⟨.loadField k p f, heard, v, before, after⟩] = [] := rfl

@[simp] theorem walkHeard_storeField :
    walkHeard [⟨.storeField k p f u, heard, v, before, after⟩] = [] := rfl

@[simp] theorem walkHeard_native (g : Api) (args : List Word) :
    walkHeard [⟨.native g args, heard, v, before, after⟩] = heard := List.append_nil heard

@[simp] theorem flagReads_stopped :
    flagReads [⟨.loadField k p .stopped, heard, v, before, after⟩] = [v] := rfl

@[simp] theorem flagReads_storeField :
    flagReads [⟨.storeField k p f u, heard, v, before, after⟩] = [] := rfl

@[simp] theorem flagReads_native (g : Api) (args : List Word) :
    flagReads [⟨.native g args, heard, v, before, after⟩] = [] := rfl

end

@[simp] theorem Party.calm_walk (k : Kind) (args heard : List Word) (above : Bool) :
    (Party.native k.api args).calm heard above = (allZero heard && above) := by
  cases k <;> rfl

@[simp] theorem Party.calm_nil (g : Party) : g.calm [] true = true := by
  cases g with
  | native f args => cases f <;> rfl
  | main | user => rfl

section
variable {s s' : Shared} {calm : Bool} {stack : List Frame}

/-- Another memory will do if it agrees on the flags. -/
theorem Flags.transport (h : Flags s calm stack)
    (hs : ∀ p ∈ contexts stack, s'.stopped p = s.stopped p) : Flags s' calm stack := by
  induction h with
  | nil => exact .nil
  | outside _ ih => exact .outside (ih hs)
  | @code calm ph id act rest below _ hk hh ih =>
    refine .code (ih fun p hp => hs p ?_) hk fun hw => ?_
    · unfold contexts
      split
      · exact List.mem_cons_of_mem _ hp
      · exact hp
    · have hb : s'.stopped act.base = s.stopped act.base := hs _ (by simp [contexts, hw])
      have hold := hh hw
      cases ph with
      | cleared =>
        refine ⟨hold.1, ?_⟩
        unfold Flagged
        rw [hb]
        exact hold.2
      | _ => exact hold

theorem flagless_party {o : Op} (h : o.flagless = true) : o.party = none := by
  cases o <;> first | rfl | cases h

/-- An operation without access to flags leaves them alone. -/
theorem flagless_run {o : Op} {a : Answer} {l l' : Local} {v : Word} (ho : o.flagless = true)
    (hr : o.run a s l = some (v, s', l')) (p : Word) : s'.stopped p = s.stopped p := by
  cases o with
  | storeField k q f u =>
    obtain ⟨c, hc, -, rfl, -⟩ := storeField_run hr
    by_cases hp : p = q
    · subst hp
      cases f with
      | stopped => cases ho
      | callback | previous => simp [Shared.stopped, hc, Context.set]
    · simp [Shared.stopped, hp]
  | loadField k q f =>
    obtain ⟨c, -, -, -, rfl, -⟩ := loadField_run hr
    rfl
  | native | callback => cases ho
  | traceEntry | traceExit | checkFault | raise | getErrno | setErrno | strlen | load | record
  | getActive | setActive =>
    simp only [Op.run, Option.some.injEq, Prod.mk.injEq] at hr
    rw [hr.2.1]

theorem flagless_event {o : Op} (ho : o.flagless = true) (heard : List Word) (v : Word)
    (before after : Local) :
    walkHeard [⟨o, heard, v, before, after⟩] = [] ∧
      flagReads [⟨o, heard, v, before, after⟩] = [] := by
  cases o with
  | native | callback => cases ho
  | loadField k p f => cases f <;> first | exact ⟨rfl, rfl⟩ | cases ho
  | storeField k p f u => exact ⟨rfl, rfl⟩
  | _ => exact ⟨rfl, rfl⟩

/-- So it keeps what a call knows. -/
theorem FlagHolds.flagless {act : Activation} {ph : FlagPhase} {o : Op} (h : FlagHolds s act calm ph)
    (ho : o.flagless = true) (heard : List Word) (v : Word) (before after : Local)
    (hs : s'.stopped act.base = s.stopped act.base) :
    FlagHolds s' (act.push ⟨o, heard, v, before, after⟩) calm ph := by
  obtain ⟨hwalk, hread⟩ := flagless_event ho heard v before after
  cases ph with
  | raw | read => simpa [FlagHolds, hwalk, hread] using h
  | cleared => simpa [FlagHolds, hwalk, hread, Flagged, hs] using h
  | _ => exact h

end

/-! ## One step of a thread -/

/-- A step leaves the flags of other threads alone. -/
def FlagsKept (s s' : Shared) (stack : List Frame) : Prop :=
  ∀ p, p ∉ contexts stack → s.cells p ≠ none → s'.stopped p = s.stopped p

theorem Shared.stopped_put_ne {s : Shared} {p q : Word} {c : Option Context} (h : p ≠ q) :
    (s.put q c).stopped p = s.stopped p := by
  simp [Shared.stopped, h]

section
variable {π : Platform} {s s' : Shared} {active : Kind → Word} {l l' : Local} {id : Nat}
  {act : Activation} {o : Op} {next : Word → Code Word} {below : List Frame}

/-- A trampoline marks the context of the walk below it. -/
theorem Stacked.marked_walk {k : Kind} {p u : Word}
    (h : Stacked s active (.code id act (.perform (.storeField k p .stopped u) next) :: below))
    (hsound : StackSound (system π) l
      (.code id act (.perform (.storeField k p .stopped u) next) :: below))
    (hr : act.entry.role = .trampoline k) :
    ∃ args heard since id' act' next' below' fn,
      below = .outside (.native k.api args) heard since ::
        .code id' act' (.perform (.native k.api args) next') :: below' ∧
      act'.entry.role = .walk k fn ∧ p = act'.base := by
  obtain ⟨args, heard, since, id', act', next', below', fn, hbelow, hr', ha⟩ :=
    h.walk_of_trampoline hsound hr
  refine ⟨args, heard, since, id', act', next', below', fn, hbelow, hr', ?_⟩
  cases h with
  | code _ hk hh =>
    obtain ⟨ph', hstep, -⟩ := hk 0
    rw [hr] at hstep hh
    cases hstep with
    | mark => rw [hh.2, ha]

/-- The flag goes up where the result is about to arrive. -/
theorem Flags.mark {k : Kind} {args heard : List Word} {since : Local} {fn : Word} (c : Context)
    (h : Flags s true (.outside (.native k.api args) heard since ::
      .code id act (.perform (.native k.api args) next) :: below))
    (hr : act.entry.role = .walk k fn) (hb : act.base ∉ contexts below) :
    Flags (s.put act.base (some (c.set 1 .stopped))) false
      (.outside (.native k.api args) heard since ::
        .code id act (.perform (.native k.api args) next) :: below) := by
  cases h with
  | outside h =>
    cases h with
    | @code _ ph _ _ _ _ hbelow hk hh =>
      have hold := hh (by simp [Call.walk_of_role.mp hr])
      refine .outside (.code ?_ hk fun _ => ?_)
      · apply hbelow.transport
        exact fun p hp => Shared.stopped_put_ne fun hpb => hb (hpb ▸ hp)
      · obtain ⟨ph', hstep, -⟩ := hk 0
        rw [hr] at hstep
        cases hstep with
        | other ho => cases ho
        | run => exact ⟨hold.1, 1, by simp [Shared.stopped, Context.set], by simp⟩

theorem op_flags {a : Answer} {v : Word}
    (hf : Flags s true (.code id act (.perform o next) :: below))
    (hst : Stacked s active (.code id act (.perform o next) :: below))
    (hsound : StackSound (system π) l (.code id act (.perform o next) :: below))
    (hr : o.run a s l = some (v, s', l')) :
    Flags s' true (.code id (act.push ⟨o, [], v, l, l'⟩) (next v) :: below) ∧
      FlagsKept s s' (.code id act (.perform o next) :: below) := by
  have hstacked := hst
  cases hf with
  | @code _ ph _ _ _ _ hbelow hk hh =>
    cases hst with
    | code hst _ _ _ hb =>
      obtain ⟨ph', hstep, hk'⟩ := hk v
      generalize hrole : act.entry.role = r at hstep
      cases hstep with
      | other ho =>
        have hsame := flagless_run ho hr
        refine ⟨.code (hbelow.transport fun p _ => hsame p) hk' fun hw => ?_, fun p _ _ => hsame p⟩
        exact (hh hw).flagless ho [] v l l' (hsame _)
      | @clear k fn _ =>
        obtain ⟨c, hc, -, rfl, rfl⟩ := storeField_run hr
        have hw : act.entry.walk.isSome := by simp [Call.walk_of_role.mp hrole]
        obtain ⟨hheard, hreads⟩ := hh hw
        refine ⟨.code ?_ hk' fun _ => ?_, fun p hp _ => ?_⟩
        · apply hbelow.transport
          exact fun p hp => Shared.stopped_put_ne fun hpb => hb hw (hpb ▸ hp)
        · exact ⟨by simp [hreads], 0, by simp [Shared.stopped, Context.set], by simp [hheard]⟩
        · exact Shared.stopped_put_ne fun hpb => hp (by simp [contexts, hw, hpb])
      | run | call | native => cases hr
      | @read k fn _ =>
        obtain ⟨c, hc, -, rfl, rfl, rfl⟩ := loadField_run hr
        refine ⟨.code ?_ hk' fun hw => ?_, fun _ _ _ => rfl⟩
        · exact hbelow
        · obtain ⟨hreads, u, hu, hzero⟩ := hh hw
          obtain rfl : c.stopped = u := by simpa [Shared.stopped, hc] using hu
          exact ⟨by simp [hreads, Context.get], by simpa [Context.get] using hzero⟩
      | @mark k p res _ hres =>
        obtain ⟨c, hc, -, rfl, rfl⟩ := storeField_run hr
        obtain ⟨args, heard, since, id', act', next', below', fn, rfl, hr', rfl⟩ :=
          hstacked.marked_walk hsound hrole
        have hbase : act'.base ∉ contexts below' := by
          cases hst with
          | outside hst =>
            cases hst with
            | code _ _ _ _ hb' => exact hb' (by simp [Call.walk_of_role.mp hr'])
        have hw : act.entry.walk = none := Call.walk_eq_none (by simp [hrole])
        refine ⟨Flags.bystander ?_ hk' hw, fun p hp _ => ?_⟩
        · exact Flags.mark c hbelow hr' hbase
        · refine Shared.stopped_put_ne fun hpb => hp ?_
          simp [contexts, hw, Call.walk_of_role.mp hr', hpb]

/-- What a native walk has heard goes over to the wrapper that waited for it. -/
theorem back_flags {g : Party} {heard : List Word} {since : Local} {v : Word} {a : Answer}
    (hf : Flags s true (.outside g heard since :: .code id act (.perform o next) :: below))
    (hg : (system π).party o = some g) :
    Flags (s.write a.writes) true
      (.code id (act.push ⟨o, heard, v, since, { l with errno := a.errno }⟩) (next v) :: below) := by
  cases hf with
  | outside hf =>
    cases hf with
    | @code _ ph _ _ _ _ hbelow hk hh =>
      have hbelow' : Flags (s.write a.writes) ph.calm below := hbelow.transport fun _ _ => rfl
      obtain ⟨ph', hstep, hk'⟩ := hk v
      generalize hrole : act.entry.role = r at hstep
      cases hstep with
      | other ho => exact absurd ((flagless_party ho).symm.trans hg) (by simp)
      | run =>
        obtain rfl := Option.some.inj hg
        refine .code ?_ hk' fun hw => ?_
        · exact hbelow'
        · obtain ⟨hreads, u, hu, hzero⟩ := hh hw
          refine ⟨by simp [hreads], u, hu, ?_⟩
          simpa using hzero
      | call =>
        refine Flags.bystander ?_ hk' (Call.walk_eq_none (by simp [hrole]))
        exact hbelow'
      | native =>
        refine Flags.bystander ?_ hk' (Call.walk_eq_none (by simp [hrole]))
        exact hbelow'
      | clear | read | mark => cases hg

/-- Native walks enter trampolines only. -/
theorem calm_of_permits {g : Party} {c : Call} (hp : g.permits c = true)
    (hc : ∀ k, c.role ≠ .trampoline k) (heard : List Word) (above : Bool) :
    g.calm heard above = true := by
  cases g with
  | main | user => rfl
  | native f args =>
    cases f with
    | ftw =>
      cases c with
      | callFtwCallback => exact absurd rfl (hc .ftw)
      | _ => cases hp
    | nftw =>
      cases c with
      | callNftwCallback => exact absurd rfl (hc .nftw)
      | _ => cases hp
    | _ => rfl

/-- A trampoline hands its result to the native walk with the flag already up for it. -/
theorem exit_flags {g : Party} {heard : List Word} {since since' : Local} {v : Word}
    (hf : Flags s true (.code id act (.done v) :: .outside g heard since :: below))
    (hst : Stacked s active (.code id act (.done v) :: .outside g heard since :: below))
    (hp : g.permits act.entry = true) :
    Flags (leaveFrame act.entry act.base s) true (.outside g (heard ++ [v]) since' :: below) ∧
      FlagsKept s (leaveFrame act.entry act.base s)
        (.code id act (.done v) :: .outside g heard since :: below) := by
  have hbase : act.entry.walk.isSome → act.base ∉ contexts below := by
    cases hst with
    | code _ _ _ _ hb => exact hb
  have hleave : ∀ p, (act.entry.walk.isSome → p ≠ act.base) →
      (leaveFrame act.entry act.base s).stopped p = s.stopped p := by
    intro p hp
    cases hw : act.entry.walk with
    | none => simp [leaveFrame, hw]
    | some w =>
      have hne : p ≠ act.base := hp (by simp [hw])
      simpa [leaveFrame, hw] using Shared.stopped_put_ne hne
  constructor
  · cases hf with
    | @code _ ph _ _ _ _ hbelow hk hh =>
      cases hbelow with
      | outside hbelow =>
        have hcalm : g.calm heard ph.calm = g.calm (heard ++ [v]) true := by
          cases hrole : act.entry.role with
          | trampoline k =>
            obtain ⟨args, rfl⟩ := native_of_permits hrole hp
            rw [hrole] at hk
            rcases hk with ⟨rfl, rfl⟩ | ⟨rfl, hv⟩
            · simp [FlagPhase.calm]
            · simp [FlagPhase.calm, hv]
          | walk | plain =>
            rw [calm_of_permits hp (by simp [hrole]), calm_of_permits hp (by simp [hrole])]
        rw [hcalm] at hbelow
        apply Flags.outside
        apply hbelow.transport
        exact fun p hm => hleave p fun hw hpb => hbase hw (hpb ▸ hm)
  · intro p hm _
    refine hleave p fun hw hpb => hm ?_
    simp [contexts, hw, hpb]

/-- A new call knows nothing of its flag. -/
theorem enter_flags {stack : List Frame} {c : Call} {base : Word} {a : Answer}
    (hf : Flags s true stack) (hst : Stacked s active stack)
    (he : enterFrame c base a s = some s') :
    Flags s' true (.code id ⟨c, base, l, []⟩ (c.code π base) :: stack) ∧ FlagsKept s s' stack := by
  have hnew : ∀ p, s.cells p ≠ none → s'.stopped p = s.stopped p := by
    intro p hp
    cases hw : c.walk with
    | none =>
      simp only [enterFrame, hw, Option.some.injEq] at he
      rw [he]
    | some w =>
      simp only [enterFrame, hw] at he
      split at he
      · next hroom =>
        obtain rfl := Option.some.inj he
        refine Shared.stopped_put_ne fun hpb => hp ?_
        simpa [hpb] using hroom.2
      · cases he
  refine ⟨?_, fun p _ hp => hnew p hp⟩
  have hbelow := hf.transport fun p hp => hnew p (hst.inScope hp)
  have hcalm : c.role.flagFirst.calm = true := by cases c.role <;> rfl
  refine .code (hcalm ▸ hbelow) (code_flags π c base) fun hw => ?_
  obtain ⟨⟨k, fn⟩, hw⟩ := Option.isSome_iff_exists.mp hw
  have hraw : c.role.flagFirst = .raw := by rw [Call.walk_of_role.mpr hw]; rfl
  show FlagHolds s' _ true c.role.flagFirst
  rw [hraw]
  exact ⟨rfl, rfl⟩

end

/-- No other outside party invokes one on behalf of a native walk. -/
theorem calm_of_invokes {g g' : Party} (h : g.invokes g' = true) (heard : List Word) (above : Bool) :
    g.calm heard above = true := by
  unfold Party.invokes at h
  split at h
  · rfl
  · rfl
  · cases h

theorem stepped_flags {π : Platform} {fresh : Nat} {s s' : Shared} {th th' : Thread} {m : Move}
    {i : Item} (h : Effect.Thread.Stepped (system π) fresh s th m s' th' i)
    (hsound : StackSound (system π) th.loc th.stack) (hst : Stacked s th.loc.active th.stack)
    (hf : Flags s true th.stack) : Flags s' true th'.stack ∧ FlagsKept s s' th.stack := by
  cases h with
  | @call l s' g heard since below c base a hp he =>
    have hf' : Flags (s.write a.writes) true (.outside g heard since :: below) :=
      hf.transport fun _ _ => rfl
    have hst' : Stacked (s.write a.writes) l.active (.outside g heard since :: below) :=
      hst.transport fun _ _ => rfl
    obtain ⟨hnew, hkept⟩ := enter_flags hf' hst' he
    exact ⟨hnew, hkept⟩
  | invoke hi =>
    refine ⟨.outside ?_, fun _ _ _ => rfl⟩
    rw [Party.calm_nil]
    exact hf.transport fun _ _ => rfl
  | act ha => exact ⟨hf.transport fun _ _ => rfl, fun _ _ _ => rfl⟩
  | back => exact ⟨back_flags hf (hsound.1 _ rfl), fun _ _ _ => rfl⟩
  | @backOutside l g' heard' since' g heard since below v a =>
    have hi : g.invokes g' = true := hsound.1 _ rfl
    cases hf with
    | outside hf =>
      cases hf with
      | outside hf =>
        refine ⟨.outside ?_, fun _ _ _ => rfl⟩
        rw [calm_of_invokes hi] at hf ⊢
        exact hf.transport fun _ _ => rfl
  | op hp hr => exact op_flags hf hst hsound hr
  | hand hp =>
    refine ⟨.outside ?_, fun _ _ _ => rfl⟩
    rw [Party.calm_nil]
    exact hf
  | exit =>
    obtain ⟨-, ⟨f, tail, hbelow, hperm⟩, -⟩ := hsound
    obtain ⟨rfl, rfl⟩ := List.cons.inj hbelow
    exact exit_flags hf hst hperm

/-! ## Every run -/

/-- Whenever a walk read its flag, the flag was 0 just when its native walk had heard zeros
only. -/
def Told (past : List Event) : Prop :=
  ∀ u ∈ flagReads past, u = 0 ↔ allZero (walkHeard past) = true

theorem FlagHolds.told {s : Shared} {act : Activation} {calm : Bool} {ph : FlagPhase}
    (h : FlagHolds s act calm ph) : Told act.past := by
  cases ph with
  | raw | cleared =>
    have hreads : flagReads act.past = [] := by first | exact h.1 | exact h.2
    intro u hu
    rw [hreads] at hu
    cases hu
  | read v =>
    intro u hu
    rw [h.1, List.mem_singleton] at hu
    exact hu ▸ h.2
  | _ => exact h.elim

structure FlagsHold (cfg : Config) : Prop where
  flags : ∀ t, Flags cfg.shared true (cfg.threads t).stack
  told : ∀ t id act v, (t, .exit id act v) ∈ cfg.log → act.entry.walk.isSome → Told act.past

theorem FlagsHold.step {π : Platform} {cfg cfg' : Config} {t : Nat} {m : Move} (h : FlagsHold cfg)
    (hsound : Config.Accounted (system π) cfg) (hstacks : Stacks cfg)
    (hs : cfg.step (system π) t m = some cfg') : FlagsHold cfg' := by
  obtain ⟨s, th, i, hst, rfl⟩ := Config.stepped hs
  obtain ⟨hnew, hkept⟩ := stepped_flags hst (hsound.sound t) (hstacks.stacked t) (h.flags t)
  constructor
  · intro u
    by_cases hu : u = t
    · subst hu
      simpa using hnew
    · simp only [Function.update_of_ne hu]
      apply (h.flags u).transport
      exact fun p hp => hkept p (hstacks.apart u t hu p hp) ((hstacks.stacked u).inScope hp)
  · intro u id act v hmem hw
    simp only [List.mem_append, List.mem_singleton, Prod.mk.injEq] at hmem
    rcases hmem with hmem | ⟨rfl, rfl⟩
    · exact h.told u id act v hmem hw
    · have hflags := h.flags u
      generalize cfg.threads u = old at hst hflags
      cases hst with
      | exit =>
        cases hflags with
        | code _ _ hh => exact (hh hw).told

theorem flags_of_reach {π : Platform} {legal : Config → Nat → Move → Prop} {heap : Word → Word}
    {cfg : Config} (h : Effect.Config.Reach (system π) legal (startConfig heap) cfg) :
    FlagsHold cfg := by
  induction h with
  | init => exact ⟨fun _ => .outside .nil, by simp [startConfig, Config.init]⟩
  | step hr _ hs ih => exact ih.step hr.accounted (stacks_of_reach hr) hs

end P101Filesystem
