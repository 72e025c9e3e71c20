import P101Filesystem.Ledger.Threads
import P101Filesystem.Ledger.Arrears

/-!
# Closes that are recorded late

closedir records what it has closed after the native call has given it back, and another
thread may be given it in between. The two records then come in the wrong order, but none is
missing: with every close moved back to its native call the records alternate, and when no
call is in progress the ledger is right.
-/
namespace P101Filesystem

open Effect Ledger

variable {π : Platform} {ν : NativeDirectory} {heap : Word → Word} {cfg : Config}

/-- Any interleaving in which the native layer and the callers are as trusted. -/
def admitted (π : Platform) (ν : NativeDirectory) (log : List (Nat × Item)) (_ : Nat) (i : Item) :
    Prop :=
  (Handles.after π ν log).Admits ν i

instance (log : List (Nat × Item)) (t : Nat) (i : Item) : Decidable (admitted π ν log t i) :=
  inferInstanceAs (Decidable ((Handles.after π ν log).Admits ν i))

/-! ## The ledger that is told at once -/

/-- The records of what a call has closed. -/
def Item.late (i : Nat × Item) : Bool :=
  match i.2, Item.mark Record.directory Foreign.directory i with
  | .event _ _, some (_, false) => true
  | _, _ => false

/-- What a step tells a ledger that hears of a close when it happens. -/
def Handles.tells (π : Platform) (h : Handles) (i : Nat × Item) : List (DirectoryKey × Bool) :=
  (h.givesBack π i.2).map (·, false) ++
    if Item.late i then [] else (Item.mark Record.directory Foreign.directory i).toList

def timelyNotes (π : Platform) (ν : NativeDirectory) (log : List (Nat × Item)) :
    List (DirectoryKey × Bool) :=
  (log.foldl (fun (s : Handles × List (DirectoryKey × Bool)) i =>
    ((s.1.happened π ν i).tick, s.2 ++ s.1.tells π i)) (Handles.start, [])).2

def timelyMarks (π : Platform) (ν : NativeDirectory) (log : List (Nat × Item))
    (k : DirectoryKey) : List Bool :=
  marks some (timelyNotes π ν log) k

def markedAll (marks : DirectoryKey → List Bool) (notes : List (DirectoryKey × Bool)) :
    DirectoryKey → List Bool :=
  notes.foldl (fun m note => marked m (some note)) marks

theorem timelyNotes_snoc (log : List (Nat × Item)) (i : Nat × Item) :
    timelyNotes π ν (log ++ [i]) = timelyNotes π ν log ++ (Handles.after π ν log).tells π i := by
  have hfst : ∀ (log : List (Nat × Item)) (h : Handles) (notes : List (DirectoryKey × Bool)),
      (log.foldl (fun (s : Handles × List (DirectoryKey × Bool)) i =>
        ((s.1.happened π ν i).tick, s.2 ++ s.1.tells π i)) (h, notes)).1 =
      log.foldl (fun h i => (h.happened π ν i).tick) h := by
    intro log
    induction log with
    | nil => exact fun _ _ => rfl
    | cons i log ih => exact fun h notes => ih _ _
  have hafter := hfst log Handles.start []
  unfold timelyNotes
  rw [List.foldl_append]
  simp only [List.foldl_cons, List.foldl_nil]
  rw [hafter]
  rfl

theorem timelyMarks_snoc (log : List (Nat × Item)) (i : Nat × Item) :
    timelyMarks π ν (log ++ [i]) =
      markedAll (timelyMarks π ν log) ((Handles.after π ν log).tells π i) := by
  have hall : ∀ notes more : List (DirectoryKey × Bool),
      marks some (notes ++ more) = markedAll (marks some notes) more := by
    intro notes more
    induction more generalizing notes with
    | nil => simp [markedAll]
    | cons note more ih =>
      rw [List.append_cons, ih, marks_snoc]
      rfl
  funext k
  rw [timelyMarks, timelyNotes_snoc, hall]
  rfl

/-! ## One step -/

/-- The phase that matters to the timely ledger: what is closed is recorded already. -/
def DirectoryPhase.timely : DirectoryPhase → DirectoryPhase
  | .closed _ _ => .idle
  | .unnoted _ => .idle
  | ph => ph

theorem closing_timely (ph : DirectoryPhase) : ph.timely.closing π = [] := by
  cases ph <;> rfl

structure Late (π : Platform) (h : Handles) (late timely : DirectoryKey → List Bool)
    (owed : List (Nat × DirectoryKey)) (phases : Nat → DirectoryPhase) : Prop where
  books : Books π h timely fun t => (phases t).timely
  owes : ∀ t, ofThread t owed = (phases t).closing π
  behind : Behind late timely owed

section
variable {h h' : Handles} {late timely : DirectoryKey → List Bool}
  {owed : List (Nat × DirectoryKey)} {phases : Nat → DirectoryPhase} {t : Nat} {i : Item}
  {ph ph' : DirectoryPhase}

theorem late_start : Late π Handles.start (fun _ => []) (fun _ => []) [] fun _ => .idle where
  books := books_start
  owes := fun _ => rfl
  behind := .nothing

theorem timely_update : (fun u => (Function.update phases t ph' u).timely) =
    Function.update (fun u => (phases u).timely) t ph'.timely := by
  funext u
  by_cases hu : u = t
  · subst hu
    simp
  · simp [Function.update_of_ne hu]

theorem owes_update {more : List (Nat × DirectoryKey)}
    (ho : ∀ u, ofThread u owed = (phases u).closing π) (ht : ofThread t more = ph'.closing π)
    (hu : ∀ u, u ≠ t → ofThread u more = ofThread u owed) :
    ∀ u, ofThread u more = (Function.update phases t ph' u).closing π := by
  intro u
  by_cases hut : u = t
  · subst hut
    rw [Function.update_self, ht]
  · rw [Function.update_of_ne hut, hu u hut, ho]

/-- A step that both ledgers hear of at once. -/
theorem Late.ordinary (hl : Late π h late timely owed phases) (hok : h.Admits ν i)
    (hadv : (directoryTypestate π).Advance (phases t) i ph') (ht : (phases t).timely = phases t)
    (ht' : ph'.timely = ph')
    (htells : h.tells π (t, i) = (Item.mark Record.directory Foreign.directory (t, i)).toList) :
    Late π (h.happened π ν (t, i))
      (marked late (Item.mark Record.directory Foreign.directory (t, i)))
      (markedAll timely (h.tells π (t, i))) owed (Function.update phases t ph') := by
  have hall : markedAll timely (h.tells π (t, i)) =
      marked timely (Item.mark Record.directory Foreign.directory (t, i)) := by
    rw [htells]
    cases Item.mark Record.directory Foreign.directory (t, i) <;> rfl
  rw [hall]
  refine ⟨?_, ?_, hl.behind.also _⟩
  · rw [timely_update, ht']
    refine hl.books.step hok (by rw [ht]; exact hadv) fun k _ u hk => ?_
    rw [closing_timely] at hk
    cases hk
  · refine owes_update hl.owes ?_ fun _ _ => rfl
    rw [hl.owes, ← ht, closing_timely, ← ht', closing_timely]

/-- A step that neither ledger hears of, while there are closes to record. -/
theorem Late.waits (hl : Late π h late timely owed phases) (hph : phases t = ph) :
    Late π h late timely owed (Function.update phases t ph) := by
  rw [← hph, Function.update_eq_self]
  exact hl

/-- The native closedir: the timely ledger hears of it. -/
theorem Late.close {p fd : Word} (hl : Late π h late timely owed phases)
    (hph : phases t = .asked p fd) {ks : List DirectoryKey} (hks : ph'.closing π = ks)
    (hh : ∀ h, ph'.Holds h t) (ho : ∀ h, ph'.opening π h = []) (ht' : ph'.timely = .idle)
    (hkeys : ks = if 0 ≤ fd then [.descriptor fd, streamKey π p] else [streamKey π p]) :
    Late π (h.closeStream p) late (markedAll timely (ks.map (·, false)))
      (owed ++ ks.map (t, ·)) (Function.update phases t ph') := by
  have hasked : (fun u => (phases u).timely) t = .asked p fd := by simp [hph, DirectoryPhase.timely]
  have hclosed := hl.books.close hasked (hh _) (ho _) (hks.trans hkeys)
  refine ⟨?_, ?_, ?_⟩
  · rw [timely_update, ht']
    subst hkeys
    by_cases hfd : 0 ≤ fd
    · rw [if_pos hfd] at hks ⊢
      have hfirst := hclosed.unrecorded (show (DirectoryPhase.unnoted p).Holds _ t from trivial)
        (by rw [Function.update_self, hks]; rfl) (by rw [Function.update_self, ho]; rfl)
      rw [Function.update_idem] at hfirst
      have hsecond := hfirst.unrecorded (show DirectoryPhase.idle.Holds _ t from trivial)
        (by rw [Function.update_self]; rfl) (by rw [Function.update_self]; rfl)
      rw [Function.update_idem] at hsecond
      exact hsecond
    · rw [if_neg hfd] at hks ⊢
      have hfirst := hclosed.unrecorded (show DirectoryPhase.idle.Holds _ t from trivial)
        (by rw [Function.update_self, hks]; rfl) (by rw [Function.update_self, ho]; rfl)
      rw [Function.update_idem] at hfirst
      exact hfirst
  · refine owes_update hl.owes ?_ fun u hu => ?_
    · rw [ofThread_append, ofThread_same, hl.owes, hph, hks]
      rfl
    · rw [ofThread_append, ofThread_other (Ne.symm hu), List.append_nil]
  · have hall : ∀ ks : List DirectoryKey, ∀ {timely owed}, Behind late timely owed →
        Behind late (markedAll timely (ks.map (·, false))) (owed ++ ks.map (t, ·)) := by
      intro ks
      induction ks with
      | nil =>
        intro timely owed hb
        simpa [markedAll] using hb
      | cons k ks ih =>
        intro timely owed hb
        have hrest := ih (hb.owe t k)
        rw [List.append_assoc] at hrest
        exact hrest
    exact hall ks hl.behind

/-- A record of what was closed: the other ledger catches up. -/
theorem Late.catchUp {k : DirectoryKey} (hl : Late π h late timely owed phases)
    (hph : (phases t).timely = .idle) (ht' : ph'.timely = .idle)
    (hc : (phases t).closing π = k :: ph'.closing π) :
    Late π h (marked late (some (k, false))) timely (owed.erase (t, k))
      (Function.update phases t ph') := by
  have howes := hl.owes t
  rw [hc] at howes
  have hmem : (t, k) ∈ owed := by
    have hk : k ∈ ofThread t owed := by simp [howes]
    obtain ⟨⟨u, j⟩, hm, hj⟩ := List.mem_filterMap.mp hk
    by_cases hu : u = t
    · obtain rfl : j = k := by simpa [hu] using hj
      exact hu ▸ hm
    · simp [hu] at hj
  refine ⟨?_, ?_, hl.behind.settle hmem⟩
  · have hsame : (fun u => (phases u).timely) t = ph'.timely := hph.trans ht'.symm
    rw [timely_update, ← hsame, Function.update_eq_self]
    exact hl.books
  · refine owes_update hl.owes ?_ fun u hu => ?_
    · rw [ofThread_erase, if_pos rfl, howes, List.erase_cons_head]
    · rw [ofThread_erase, if_neg hu]

theorem tells_other {id : Nat} {f : Api} {args heard : List Word} {v : Word} {before after : Local}
    (hf : f.handles = false) :
    h.tells π (t, .event id ⟨.native f args, heard, v, before, after⟩) = [] := by
  have hgive : h.givesBack π (.event id ⟨.native f args, heard, v, before, after⟩) = [] := by
    dsimp only [Handles.givesBack]
    split
    · next ho =>
      cases ho
      simp [Api.handles] at hf
    · rfl
  simp [Handles.tells, hgive, Item.late, Item.mark, recordOf]

/-- A native closedir that succeeds. -/
theorem closed_happened {id : Nat} {p v : Word} {heard : List Word} {before after : Local}
    (hv : v ≠ -1) :
    h.happened π ν (t, .event id ⟨.native .closedir [p], heard, v, before, after⟩) =
        h.closeStream p ∧
      h.tells π (t, .event id ⟨.native .closedir [p], heard, v, before, after⟩) =
        (h.keys π p).map (·, false) := by
  constructor
  · simp [Handles.happened, Handles.answered, hv]
  · simp [Handles.tells, Handles.givesBack, Item.late, Item.mark, recordOf, hv]

/-- One step of any thread, whatever the others have left to record. -/
theorem Late.step (hl : Late π h late timely owed phases)
    (hok : h.Admits ν i) (hadv : (directoryTypestate π).Advance (phases t) i ph') :
    ∃ owed', Late π (h.happened π ν (t, i))
      (marked late (Item.mark Record.directory Foreign.directory (t, i)))
      (markedAll timely (h.tells π (t, i))) owed' (Function.update phases t ph') := by
  have ordinary : (phases t).timely = phases t → ph'.timely = ph' →
      h.tells π (t, i) = (Item.mark Record.directory Foreign.directory (t, i)).toList →
      ∃ owed', Late π (h.happened π ν (t, i))
        (marked late (Item.mark Record.directory Foreign.directory (t, i)))
        (markedAll timely (h.tells π (t, i))) owed' (Function.update phases t ph') :=
    fun ht ht' htells => ⟨owed, hl.ordinary hok hadv ht ht' htells⟩
  have hholds := hl.books.holds t
  generalize hph : phases t = ph at hadv hholds ordinary
  cases hadv with
  | @call id c base => exact ordinary rfl (by cases c <;> rfl) rfl
  | exit hfinal =>
    refine ordinary ?_ rfl rfl
    cases ph <;> first | rfl | exact hfinal.elim
  | invoke => exact ordinary rfl rfl rfl
  | act => exact ordinary rfl rfl rfl
  | returned | hand => exact ⟨owed, hl.waits hph⟩
  | event hstep =>
    rename_i e
    obtain ⟨o, heard, v, before, after⟩ := e
    cases hstep with
    | inert hp hd =>
      refine ⟨owed, ?_⟩
      cases o with
      | native | callback => cases hp
      | record r =>
        have hmark : r.directory = none := hd
        simpa [Handles.happened, Handles.answered, Handles.tells, Handles.givesBack, Item.late,
          Item.mark, recordOf, hmark, marked, markedAll] using hl.waits hph
      | _ => exact hl.waits hph
    | other hf => exact ordinary rfl rfl (tells_other hf)
    | closeFailed => exact ordinary rfl rfl (by simp [Handles.tells, Handles.givesBack, Item.late,
        Item.mark, recordOf])
    | @close p fd _ hne hnn =>
      obtain ⟨s, hp, -, ht⟩ := hholds
      obtain ⟨hhappened, htells⟩ := closed_happened hne
      rw [hhappened, htells, keys_of_tells π hl.books.wf hp ht, if_pos hnn]
      exact ⟨_, hl.close hph rfl (fun _ => trivial) (fun _ => rfl) rfl (if_pos hnn).symm⟩
    | @closeUnknown p fd _ hne hneg =>
      have hnn : ¬ 0 ≤ fd := Int.not_le.mpr hneg
      obtain ⟨s, hp, -, ht⟩ := hholds
      obtain ⟨hhappened, htells⟩ := closed_happened hne
      rw [hhappened, htells, keys_of_tells π hl.books.wf hp ht, if_neg hnn]
      exact ⟨_, hl.close hph rfl (fun _ => trivial) (fun _ => rfl) rfl (if_neg hnn).symm⟩
    | noteClosed | noteReleased =>
      exact ⟨_, hl.catchUp (by rw [hph]; rfl) rfl (by rw [hph]; rfl)⟩
    | _ => exact ordinary rfl rfl rfl

end

/-! ## Runs -/

theorem late_of_traced {log : List (Nat × Item)} {phases : Nat → DirectoryPhase}
    (h : (directoryTypestate π).Traced (admitted π ν) log phases) :
    ∃ owed,
      Late π (Handles.after π ν log) (directoryMarks log) (timelyMarks π ν log) owed phases := by
  induction h with
  | nil => exact ⟨[], late_start⟩
  | @snoc log phases t i ph' _ hok hadv ih =>
    obtain ⟨owed, hl⟩ := ih
    obtain ⟨owed', hl'⟩ := hl.step hok hadv
    have hmarks : directoryMarks (log ++ [(t, i)]) = marked (directoryMarks log)
        (Item.mark Record.directory Foreign.directory (t, i)) := marks_snoc _ log (t, i)
    rw [Handles.after_snoc, hmarks, timelyMarks_snoc]
    exact ⟨owed', hl'.books.tick, hl'.owes, hl'.behind⟩

/-- In any interleaving, also when a stream or a descriptor is handed out again before its close
is recorded: with every close moved back to its native call the records alternate. The ledger
lacks none of the opens in them, and no closes but those that calls in progress have to record.
While no call is in progress it has the same marks, and holds exactly what is open. -/
theorem late_records (hν : ν.final = false)
    (h : Effect.Config.Reach (system π) (Config.admits (system π) (admitted π ν))
      (startConfig heap) cfg) :
    (∀ k, Alternates (timelyMarks π ν cfg.log k)) ∧
      (∀ k, (directoryMarks cfg.log k).count true = (timelyMarks π ν cfg.log k).count true ∧
        (directoryMarks cfg.log k).count false ≤ (timelyMarks π ν cfg.log k).count false) ∧
      ((∀ t, UserRuns cfg t) →
        (∀ k, (directoryMarks cfg.log k).Perm (timelyMarks π ν cfg.log k)) ∧
        DirectoryLedger π (Handles.after π ν cfg.log) cfg.log) := by
  obtain ⟨phases, htr, hph⟩ := h.traced (directoryTypestate π)
  obtain ⟨owed, hbooks, howes, hbehind⟩ := late_of_traced htr
  have hlost : (Handles.after π ν cfg.log).lost = [] := lost_of_traced (fun _ => .inl hν) htr
  refine ⟨fun k => hbooks.agrees.alternates k (by simp [directoryAccount, hlost]),
    fun k => ⟨hbehind.takes k, hbehind.gives_le k⟩, fun hu => ?_⟩
  have hidle : ∀ t, phases t = .idle := fun t => idle_of_userRuns (fun _ hg => hg) (hph t) (hu t)
  have hnone : owed = [] := by
    refine List.eq_nil_iff_forall_not_mem.mpr ?_
    rintro ⟨t, k⟩ hm
    have hk : k ∈ ofThread t owed := List.mem_filterMap.mpr ⟨(t, k), hm, by simp⟩
    rw [howes, hidle] at hk
    cases hk
  rw [hnone] at hbehind
  have hperm := hbehind.perm
  have hheld : ∀ k, held (directoryMarks cfg.log k) = held (timelyMarks π ν cfg.log k) := by
    intro k
    rw [held, held, (hperm k).count_eq, (hperm k).count_eq]
  have hsettled := hbooks.settled fun t => by rw [hidle]; rfl
  refine ⟨hperm, fun fd => ?_, fun id => ?_⟩
  · rw [hheld]
    simpa [hlost, Handles.Live] using hsettled (.descriptor fd)
  · rw [hheld]
    simpa [hlost, Handles.Live] using hsettled (.stream id)

/-- The run that breaks the order of the records. -/
theorem late_records_window :
    ∃ cfg, (startConfig fun _ => 0).run (system linux)
        (Config.admits (system linux) (admitted linux threes)) window = some cfg ∧
      directoryMarks cfg.log (.descriptor 3) = [true, true, false] ∧
      (∀ k, Alternates (timelyMarks linux threes cfg.log k)) ∧
      DirectoryLedger linux (Handles.after linux threes cfg.log) cfg.log := by
  have hrun : ((startConfig fun _ => 0).run (system linux)
      (Config.admits (system linux) (admitted linux threes)) window).map
      (fun cfg => (directoryMarks cfg.log (.descriptor 3),
        decide (∀ t : Nat, t < 2 → UserRuns cfg t))) =
      some ([true, true, false], true) := by decide
  obtain ⟨cfg, hcfg, hstate⟩ := Option.map_eq_some_iff.mp hrun
  obtain ⟨hmarks, hu⟩ := Prod.mk.inj hstate
  have husers := userRuns_of_run hcfg (n := 2) (by decide) (of_decide_eq_true hu)
  obtain ⟨halt, -, hrest⟩ := late_records rfl (Effect.Config.Reach.of_run .init hcfg)
  exact ⟨cfg, hcfg, hmarks, halt, (hrest husers).2⟩

end P101Filesystem
