import P101Filesystem.Walk.Flags

/-!
# Native walks that fail

A walk wrapper reports the failure of its native walk when its flag is still clear. Under
POSIX that is right: a nonzero callback result ends the walk. Under glibc's FTW_ACTIONRETVAL
such a result may also steer it, and a walk that was steered and then fails says nothing.
-/
namespace P101Filesystem

open Effect

/-! glibc's nftw flag and the callback results that it gives a meaning. -/

def ftwActionretval : Word := 16
def ftwContinue : Word := 0
def ftwSkipSubtree : Word := 2
def ftwSkipSiblings : Word := 3

section
variable {π : Platform} {k : Kind} {b retVal v : Word} {es : List Event}

/-- What a walk wrapper went through after its native walk. -/
theorem walkTail_done (h : Follows (walkTail π k b retVal) es (.done v)) :
    v = retVal ∧ natives es = [] ∧ ∃ get rest, es = get :: rest ∧ get.op = .getErrno ∧
      (retVal = -1 → ∃ u, flagReads es = [u] ∧ raised es =
        if u = 0 then [(.errno, if get.answer = 0 then π.eio else get.answer)] else []) := by
  rw [walkTail_eq] at h
  obtain ⟨get, es, rfl, hget, h⟩ := h.perform_done
  obtain ⟨fetch, es, rfl, hfetch, h⟩ := h.perform_done
  obtain ⟨unlink, es, rfl, hunlink, h⟩ := h.perform_done
  by_cases hfailed : retVal = -1
  · rw [if_pos hfailed] at h
    obtain ⟨check, es, rfl, hcheck, h⟩ := h.perform_done
    by_cases hclear : check.answer = 0
    · rw [if_pos hclear] at h
      obtain ⟨raise, es, rfl, hraise, h⟩ := h.perform_done
      obtain ⟨exit, es, rfl, hexit, h⟩ := h.perform_done
      obtain ⟨rfl, rfl⟩ := h.done_done
      refine ⟨rfl, by simp [nativeOf, hget, hfetch, hunlink, hcheck, hraise, hexit], get, _, rfl,
        hget, fun _ => ⟨check.answer, ?_, ?_⟩⟩
      · simp [flagReads, hget, hfetch, hunlink, hcheck, hraise, hexit]
      · simp [raiseOf, hget, hfetch, hunlink, hcheck, hraise, hexit, hclear]
    · rw [if_neg hclear] at h
      obtain ⟨exit, es, rfl, hexit, h⟩ := h.perform_done
      obtain ⟨rfl, rfl⟩ := h.done_done
      refine ⟨rfl, by simp [nativeOf, hget, hfetch, hunlink, hcheck, hexit], get, _, rfl, hget,
        fun _ => ⟨check.answer, ?_, ?_⟩⟩
      · simp [flagReads, hget, hfetch, hunlink, hcheck, hexit]
      · simp [raiseOf, hget, hfetch, hunlink, hcheck, hexit, hclear]
  · rw [if_neg hfailed] at h
    obtain ⟨exit, es, rfl, hexit, h⟩ := h.perform_done
    obtain ⟨rfl, rfl⟩ := h.done_done
    exact ⟨rfl, by simp [nativeOf, hget, hfetch, hunlink, hexit], get, _, rfl, hget,
      fun hf => absurd hf hfailed⟩

/-- A finished walk wrapper never came to its native walk, or went through it once. -/
theorem walk_done {path fn limit : Word} {args : List Word}
    (h : Follows (walk π k path fn limit args b) es (.done v)) :
    natives es = [] ∨ ∃ past e rest, es = past ++ e :: rest ∧ e.op = .native k.api args ∧
      natives past = [] ∧ raised past = [] ∧ flagReads past = [] ∧
      Follows (walkTail π k b e.answer) rest (.done v) := by
  rw [walk_eq] at h
  obtain ⟨entry, es, rfl, hentry, h⟩ := h.perform_done
  obtain ⟨check, es, rfl, hcheck, h⟩ := h.perform_done
  by_cases hfault : check.answer = 0
  · simp only [hfault, ne_eq, not_true_eq_false, if_false] at h
    by_cases hrejected : path = NULL ∨ fn = NULL ∨ limit < 1
    · rw [if_pos hrejected] at h
      obtain ⟨raise, es, rfl, hraise, h⟩ := h.perform_done
      obtain ⟨exit, es, rfl, hexit, h⟩ := h.perform_done
      obtain ⟨rfl, -⟩ := h.done_done
      exact .inl (by simp [nativeOf, hentry, hcheck, hraise, hexit])
    · rw [if_neg hrejected] at h
      obtain ⟨name, es, rfl, hname, h⟩ := h.perform_done
      obtain ⟨clear, es, rfl, hclear, h⟩ := h.perform_done
      obtain ⟨find, es, rfl, hfind, h⟩ := h.perform_done
      obtain ⟨save, es, rfl, hsave, h⟩ := h.perform_done
      obtain ⟨link, es, rfl, hlink, h⟩ := h.perform_done
      obtain ⟨reset, es, rfl, hreset, h⟩ := h.perform_done
      obtain ⟨e, rest, rfl, he, h⟩ := h.perform_done
      refine .inr ⟨[entry, check, name, clear, find, save, link, reset], e, rest, rfl, he,
        ?_, ?_, ?_, h⟩
      · simp [nativeOf, hentry, hcheck, hname, hclear, hfind, hsave, hlink, hreset]
      · simp [raiseOf, hentry, hcheck, hname, hclear, hfind, hsave, hlink, hreset]
      · simp [flagReads, hentry, hcheck, hname, hclear, hfind, hsave, hlink, hreset]
  · simp only [hfault, ne_eq, not_false_eq_true, if_true] at h
    obtain ⟨raise, es, rfl, hraise, h⟩ := h.perform_done
    obtain ⟨exit, es, rfl, hexit, h⟩ := h.perform_done
    obtain ⟨rfl, -⟩ := h.done_done
    exact .inl (by simp [nativeOf, hentry, hcheck, hraise, hexit])

end

/-- What a walk whose native walk returned -1 reports: the errno the native walk left, unless
some callback result was nonzero. -/
def failureReport (π : Platform) (e : Event) : List (Domain × Word) :=
  if allZero e.heard then [(.errno, if e.after.errno = 0 then π.eio else e.after.errno)] else []

/-- In every run, nested walks and other threads included, a walk reports what it should by the
results its native walk has heard. -/
theorem walk_reports {π : Platform} {legal : Config → Nat → Move → Prop} {heap : Word → Word}
    {cfg : Config} (h : Effect.Config.Reach (system π) legal (startConfig heap) cfg) {t id : Nat}
    {w : WalkCall} {act : Activation} {f : Api} {args : List Word} {e : Event} {v : Word}
    (hexit : (t, .exit id act v) ∈ cfg.log) (hentry : act.entry = w.call)
    (he : (f, args, e) ∈ natives act.past) (hfailed : e.answer = -1) :
    args = w.args ∧ v = -1 ∧ raised act.past = failureReport π e := by
  have htold := (flags_of_reach h).told t id act v hexit (by simp [hentry])
  obtain ⟨now, hsound⟩ := h.accounted.returned t id act v hexit
  have hfollows : Follows (w.call.code π act.base) act.past (.done v) := hentry ▸ hsound.follows
  rw [w.call_code] at hfollows
  rcases walk_done hfollows with hnone | ⟨past, e', rest, hpast, hop, hnat, hraised, hreads, htail⟩
  · rw [hnone] at he
    cases he
  · obtain ⟨rfl, htailnat, get, rest', rfl, hget, hreport⟩ := walkTail_done htail
    have hall : natives act.past = [(w.kind.api, w.args, e')] := by
      simp [hpast, hnat, htailnat, nativeOf, hop]
    rw [hall, List.mem_singleton] at he
    obtain ⟨rfl, rfl, rfl⟩ : f = w.kind.api ∧ args = w.args ∧ e = e' := by simpa using he
    obtain ⟨u, hu, hraises⟩ := hreport hfailed
    have herrno : get.answer = e.after.errno := by
      obtain ⟨m, -, -, hbefore, -⟩ := Chained.append_iff.mp (hpast ▸ hsound.chained)
      obtain ⟨a, s, s', hrun⟩ := hsound.answers get (by simp [hpast]) (by rw [hget]; rfl)
      rw [hget, hbefore] at hrun
      exact (Prod.mk.inj (Option.some.inj hrun)).1.symm
    have hflag : flagReads act.past = [u] := by
      have hnone : flagReads [e] = [] := by simp [flagReads, hop]
      rw [hpast, List.append_cons, flagReads_append, flagReads_append, hreads, hnone, hu]
      rfl
    have hheard : walkHeard act.past = e.heard := by simp [walkHeard, hall]
    have hu0 := htold u (by simp [hflag])
    rw [hheard] at hu0
    refine ⟨rfl, hfailed, ?_⟩
    rw [hpast, raised_append, hraised, raised_cons, hraises, failureReport, herrno]
    simp [raiseOf, hop, hu0]

/-- p101_nftw reports the failure of its native walk just when every callback result that the
walk heard before was FTW_CONTINUE. -/
theorem nftw_failures {π : Platform} {legal : Config → Nat → Move → Prop} {heap : Word → Word}
    {cfg : Config} (h : Effect.Config.Reach (system π) legal (startConfig heap) cfg) {t id : Nat}
    {path fn fdLimit flags : Word} {act : Activation} {args : List Word} {e : Event} {v : Word}
    (hexit : (t, .exit id act v) ∈ cfg.log) (hentry : act.entry = .nftw path fn fdLimit flags)
    (he : (.nftw, args, e) ∈ natives act.past) (hfailed : e.answer = -1)
    (herrno : e.after.errno ≠ 0) :
    args = [path, fdLimit, flags] ∧
      ((v = -1 ∧ (.errno, e.after.errno) ∈ raised act.past) ↔ ∀ r ∈ e.heard, r = ftwContinue) := by
  obtain ⟨hargs, hv, hraised⟩ :=
    walk_reports (w := ⟨.nftw, path, fn, fdLimit, flags⟩) h hexit hentry he hfailed
  refine ⟨hargs, ?_⟩
  rw [hraised, failureReport, if_neg herrno]
  constructor
  · rintro ⟨-, hmem⟩
    split at hmem
    · next hzero => exact allZero_iff.mp hzero
    · cases hmem
  · intro hall
    have hzero : allZero e.heard = true := allZero_iff.mpr hall
    simp [hv, hzero]

/-- An nftw whose callback returns these results before the native walk fails with EACCES. -/
def failingWalk (results : List Word) : List (Nat × Move) :=
  opening 0 (.nftw 1 7 5 ftwActionretval) 100 ++
    results.flatMap (fun r =>
      [(0, .call (.callNftwCallback 3 4 0 5) 110 calm₀)] ++ runs 0 2 ++ answers 0 r ++
        runs 0 (if r = ftwContinue then 0 else 1) ++ [(0, .exit)]) ++
    [(0, .back (-1) ⟨0, 13, []⟩)] ++
    runs 0 (if results.all (· = ftwContinue) then 6 else 5) ++ [(0, .exit)]

/-- The return of that nftw, with what it raised. -/
def Item.failedWalk (results : List Word) (reports : List (Domain × Word)) : Nat × Item → Bool
  | (_, .exit _ act v) => act.entry = .nftw 1 7 5 ftwActionretval ∧ v = -1 ∧
      raised act.past = reports ∧ (natives act.past).any fun n =>
        n.1 = .nftw ∧ n.2.2.heard = results ∧ n.2.2.answer = -1 ∧ n.2.2.after.errno = 13
  | _ => false

theorem failedWalk_of_run {results : List Word} {reports : List (Domain × Word)}
    (h : ((startConfig fun _ => 0).run (system linux) (fun _ _ _ => True)
      (failingWalk results)).map (fun cfg => cfg.log.any (Item.failedWalk results reports)) =
        some true) :
    ∃ cfg t id act args, ∃ e : Event, (startConfig fun _ => 0).run (system linux)
        (fun _ _ _ => True) (failingWalk results) = some cfg ∧ (t, .exit id act (-1)) ∈ cfg.log ∧
      act.entry = .nftw 1 7 5 ftwActionretval ∧ (.nftw, args, e) ∈ natives act.past ∧
      e.heard = results ∧ e.answer = -1 ∧ e.after.errno = 13 ∧ raised act.past = reports := by
  obtain ⟨cfg, hcfg, hany⟩ := Option.map_eq_some_iff.mp h
  obtain ⟨⟨t, i⟩, hmem, hi⟩ := List.any_eq_true.mp hany
  cases i with
  | exit id act v =>
    simp only [Item.failedWalk, List.any_eq_true, Bool.decide_and, Bool.and_eq_true,
      decide_eq_true_eq] at hi
    obtain ⟨hentry, rfl, hraised, ⟨f, args, e⟩, he, rfl, hheard, hanswer, herrno⟩ := hi
    exact ⟨cfg, t, id, act, args, e, hcfg, hmem, hentry, he, hheard, hanswer, herrno, hraised⟩
  | _ => cases hi

theorem two_continues : ((startConfig fun _ => 0).run (system linux) (fun _ _ _ => True)
    (failingWalk [ftwContinue, ftwContinue])).map (fun cfg => cfg.log.any
      (Item.failedWalk [ftwContinue, ftwContinue] [(.errno, 13)])) = some true := by
  decide +kernel

/-- Two directories are entered, the third cannot be opened. -/
theorem nftw_failures_reported :
    ∃ cfg t id act v, (startConfig fun _ => 0).run (system linux) (fun _ _ _ => True)
        (failingWalk [ftwContinue, ftwContinue]) = some cfg ∧ (t, .exit id act v) ∈ cfg.log ∧
      v = -1 ∧ (.errno, 13) ∈ raised act.past := by
  obtain ⟨cfg, t, id, act, args, e, hcfg, hexit, hentry, he, hheard, hanswer, herrno, -⟩ :=
    failedWalk_of_run two_continues
  obtain ⟨-, hiff⟩ := nftw_failures (Effect.Config.Reach.of_run .init hcfg) hexit hentry he
    hanswer (by rw [herrno]; decide)
  rw [hheard, herrno] at hiff
  exact ⟨cfg, t, id, act, -1, hcfg, hexit, hiff.mpr (by decide)⟩

/-- The callback skips a directory and then the rest of its level, the next directory cannot be
opened, and nothing is raised. -/
theorem nftw_failure_lost :
    ∃ cfg t id act args, ∃ e : Event, (startConfig fun _ => 0).run (system linux)
        (fun _ _ _ => True) (failingWalk [ftwSkipSubtree, ftwSkipSiblings]) = some cfg ∧
      (t, .exit id act (-1)) ∈ cfg.log ∧ act.entry = .nftw 1 7 5 ftwActionretval ∧
      (.nftw, args, e) ∈ natives act.past ∧ e.heard = [ftwSkipSubtree, ftwSkipSiblings] ∧
      e.answer = -1 ∧ e.after.errno = 13 ∧ raised act.past = [] :=
  failedWalk_of_run (by decide +kernel)

end P101Filesystem
