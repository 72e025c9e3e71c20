import P101Filesystem.Calls.Endings
import P101Filesystem.Calls.Brackets
import P101Filesystem.Effect.Batches
import P101Filesystem.Ledger.Marks

/-!
# What a thread tells

A call raises its error or makes its records after its native function has returned. So what
the calls of a thread tell is not mixed: it comes call by call, in the order in which the
calls return, however they were nested.
-/
namespace P101Filesystem

open Effect

variable {π : Platform}

def Event.tells (e : Event) : List Op := if e.op.tells then [e.op] else []

/-- The raises and records of thread `t`. -/
def toldBy (log : List (Nat × Item)) (t : Nat) : List Op := outputs Event.tells log t

theorem told_eq_flatMap (es : List Event) : told es = es.flatMap Event.tells := by
  induction es with
  | nil => rfl
  | cons e es ih => rw [told_cons, ih, List.flatMap_cons, Event.tells]

/-- Nothing is told by a call that has only logged its entry. -/
theorem told_of_entered {id : Nat} {f : Api} {es : List Event}
    (h : contribution id f es = [.entry id (.wrapper f)]) : told es = [] := by
  rw [told_eq_flatMap, List.flatMap_eq_nil_iff]
  intro e he
  have hnotes : ∀ n ∈ (e.op.notes id).filter (Note.concerns id f), n = .entry id (.wrapper f) := by
    intro n hn
    have hmem : n ∈ contribution id f es := List.mem_flatMap.mpr ⟨e, he, hn⟩
    rw [h] at hmem
    exact List.mem_singleton.mp hmem
  obtain ⟨o, heard, v, before, after⟩ := e
  cases o with
  | raise domain message code =>
    have hn := hnotes (.raise id domain code) (by simp [Op.notes, Note.concerns, Note.id])
    cases hn
  | record r =>
    have hn := hnotes (.record id r) (by simp [Op.notes, Note.concerns, Note.id])
    cases hn
  | _ => rfl

/-- A wrapper that waits for a party which may come back waits for its own native function. -/
theorem own_native {f : Api} {o : Op} {g : Party} (ho : o.footprint f = true)
    (hg : o.party = some g) (hre : g.reentrant) : ∃ args, o = .native f args := by
  cases o with
  | native g' args =>
    obtain rfl := Option.some.inj hg
    simp only [Op.footprint, decide_eq_true_eq] at ho
    rcases ho with rfl | ⟨rfl, -⟩
    · exact ⟨args, rfl⟩
    · simp [Party.reentrant] at hre
  | callback => cases ho
  | _ => cases hg

theorem telling_silent {c : Call} {b : Word} {es : List Event} {o : Op} {g : Party}
    {next : Word → Code Word} (h : Follows (c.code π b) es (.perform o next))
    (hg : o.party = some g) (hre : g.reentrant) : told es = [] := by
  cases hc : c.api with
  | some f =>
    have hallows := not_not.mp (h.not_perform (Call.footprint π b c))
    simp only [Call.allows, hc] at hallows
    obtain ⟨args, rfl⟩ := own_native hallows hg hre
    obtain ⟨ph, hpath, hk⟩ := (code_shape π b hc).logs.path h
    have hlogged : Logged 0 f ph (contribution 0 f es) := by simpa using Logged.fresh.run hpath
    obtain ⟨ph', hstep, -⟩ := hk 0
    generalize ho : Op.native f args = o at hstep
    cases hstep with
    | quiet hq =>
      subst ho
      simp [Op.quiet] at hq
    | main =>
      generalize hl : contribution 0 f es = l at hlogged
      cases hlogged
      exact told_of_entered hl
    | _ => cases ho
  | none =>
    have hfootprint := (h.avoids (Call.footprint π b c)).1
    rw [told_eq_flatMap, List.flatMap_eq_nil_iff]
    intro e he
    have hallows : c.allows e.op := not_not.mp (hfootprint e he)
    simp only [Call.allows, hc] at hallows
    obtain ⟨o, heard, v, before, after⟩ := e
    cases o with
    | raise | record => cases hallows
    | _ => rfl

def telling (π : Platform) : Batching (system π) Event.tells where
  reentrant := Party.reentrant
  permits := reentrant_of_permits
  invokes := reentrant_of_invokes
  silent := by
    intro c b es o next g h hg hre
    rw [← told_eq_flatMap]
    exact telling_silent h hg hre

/-- While the user runs, every call on the stack waits for a party that may come back. -/
theorem userRuns_reenterable {cfg : Config} {t : Nat} (h : UserRuns cfg t) :
    ∀ f ∈ (cfg.threads t).stack.head?, (telling π).Reenterable f := by
  intro f hf
  unfold UserRuns at h
  split at h
  · next hs =>
    rw [hs] at hf
    cases hf
    trivial
  · next hs =>
    rw [hs] at hf
    cases hf
    trivial
  · exact h.elim

/-- In every run, at any time and for any thread: what the thread has told is what its finished
calls have told, in the order of their returns, and what its running calls have told so far,
which is nothing while the user runs. -/
theorem told_in_order {legal : Config → Nat → Move → Prop} {heap : Word → Word} {cfg : Config}
    (h : Effect.Config.Reach (system π) legal (startConfig heap) cfg) (t : Nat) :
    (toldBy cfg.log t = ((finished cfg.log t).flatMap fun act => told act.past) ++
      (codes (cfg.threads t).stack).flatMap fun c => told c.2.past) ∧
    (UserRuns cfg t → toldBy cfg.log t = (finished cfg.log t).flatMap fun act => told act.past) := by
  have hall : toldBy cfg.log t = ((finished cfg.log t).flatMap fun act => told act.past) ++
      (codes (cfg.threads t).stack).flatMap fun c => told c.2.past := by
    simp only [told_eq_flatMap]
    exact h.batched (telling π) t
  refine ⟨hall, fun hu => ?_⟩
  have hsilent : ((codes (cfg.threads t).stack).flatMap fun c => told c.2.past) = [] := by
    refine List.flatMap_eq_nil_iff.mpr fun c hc => ?_
    rw [told_eq_flatMap]
    exact (telling π).waiting_silent (h.accounted.sound t) (userRuns_reenterable hu) c hc
  rw [hall, hsilent, List.append_nil]

/-- A walk whose callback opens a directory and which then fails with EACCES. -/
def openingWalk : List (Nat × Move) :=
  opening 0 (.nftw 1 7 5 0) 100 ++ [(0, .call (.callNftwCallback 3 4 0 5) 110 calm₀)] ++
    runs 0 2 ++ [(0, .hand)] ++ openedDirectory ++ [(0, .back 0 calm₀), (0, .exit),
    (0, .back (-1) ⟨0, 13, []⟩)] ++ runs 0 6 ++ [(0, .exit)]

/-- The records of the inner call come before the error of the outer one. -/
theorem told_in_order_nested :
    ∃ cfg, (startConfig fun _ => 0).run (system linux) (fun _ _ _ => True) openingWalk = some cfg ∧
      (finished cfg.log 0).map Effect.Activation.entry =
        [.opendir 1, .callNftwCallback 3 4 0 5, .nftw 1 7 5 0] ∧
      (toldBy cfg.log 0).length = 3 ∧
      toldBy cfg.log 0 = (finished cfg.log 0).flatMap fun act => told act.past := by
  have hrun : ((startConfig fun _ => 0).run (system linux) (fun _ _ _ => True) openingWalk).map
      (fun cfg => (decide (UserRuns cfg 0), (finished cfg.log 0).map Effect.Activation.entry,
        (toldBy cfg.log 0).length)) =
      some (true, [.opendir 1, .callNftwCallback 3 4 0 5, .nftw 1 7 5 0], 3) := by decide +kernel
  obtain ⟨cfg, hcfg, hstate⟩ := Option.map_eq_some_iff.mp hrun
  obtain ⟨hu, hstate⟩ := Prod.mk.inj hstate
  obtain ⟨hentries, hlength⟩ := Prod.mk.inj hstate
  have htold := (told_in_order (Effect.Config.Reach.of_run .init hcfg) 0).2 (of_decide_eq_true hu)
  exact ⟨cfg, hcfg, hentries, hlength, htold⟩

end P101Filesystem
