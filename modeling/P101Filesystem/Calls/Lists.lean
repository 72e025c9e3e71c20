import P101Filesystem.Walk.Contexts
import P101Filesystem.Ledger.Marks
import P101Filesystem.Source.Normal
import P101Filesystem.Calls.Faults

/-!
# The blocks of a directory list

A native scandir hands over an array of n pointers and the n entries they point to. The
wrapper reads the array in order and records each block once; when the caller has freed
them all, in whatever order, the ledger is as it was.
-/
namespace P101Filesystem

open Effect Ledger

variable {π : Platform}

/-! ## What is handed over -/

/-- The address of entry `i` of the array at `list`. -/
def slotAt (π : Platform) (list : Word) (i : Nat) : Word := list + i * π.sizeofDirentPointer

/-- Entry `i` of the array at `list`. -/
def entryAt (π : Platform) (heap : Word → Word) (list : Word) (i : Nat) : Word :=
  heap (slotAt π list i)

/-- The entries `i`, `i + 1`, ... of an array, `n` of them, each with its size. -/
def entriesAt (π : Platform) (heap : Word → Word) (list : Word) (i n : Nat) : List (Word × Nat) :=
  (List.range' i n).map fun j => (entryAt π heap list j, π.sizeofDirent)

/-- The blocks that a native scandir which returned `v` hands over, each with its size. -/
def handedOver (π : Platform) (heap : Word → Word) (namelist v : Word) : List (Word × Nat) :=
  if v = -1 ∨ heap namelist = NULL then []
  else (heap namelist, v.toNat * π.sizeofDirentPointer) ::
    entriesAt π heap (heap namelist) 0 v.toNat

/-- scandir fails with -1, or returns the number of entries, with no array only if there are
none; the blocks are distinct and the array fits the address space. -/
structure ScandirResult (π : Platform) (heap : Word → Word) (namelist v : Word) : Prop where
  count : v = -1 ∨ 0 ≤ v
  empty : heap namelist = NULL → v ≤ 0
  distinct : ((handedOver π heap namelist v).map Prod.fst).Nodup
  fits : v.toNat * π.sizeofDirentPointer < 2 ^ π.sizeBits

def allocated (blocks : List (Word × Nat)) : List Record := blocks.map fun b => .alloc b.1 b.2

def loadOf (e : Event) : Option Word :=
  match e.op with
  | .load p => some p
  | _ => none

/-- The addresses that a call has read. -/
def loaded (es : List Event) : List Word := es.filterMap loadOf

@[simp] theorem loaded_nil : loaded [] = [] := rfl
@[simp] theorem loaded_append (es fs : List Event) : loaded (es ++ fs) = loaded es ++ loaded fs :=
  List.filterMap_append
@[simp] theorem loaded_cons (e : Event) (es : List Event) :
    loaded (e :: es) = (loadOf e).toList ++ loaded es := by
  unfold loaded
  cases h : loadOf e <;> simp [h]

theorem entriesAt_succ (heap : Word → Word) (list : Word) (i n : Nat) :
    entriesAt π heap list i (n + 1) =
      (entryAt π heap list i, π.sizeofDirent) :: entriesAt π heap list (i + 1) n := by
  simp [entriesAt, List.range'_succ]

/-- The size of an array that fits is not reduced. -/
theorem listSize_eq {v : Word} (h0 : 0 ≤ v) (h : v.toNat * π.sizeofDirentPointer < 2 ^ π.sizeBits) :
    listSize π v = v.toNat * π.sizeofDirentPointer := by
  unfold listSize
  by_cases hp : π.sizeofDirentPointer = 0
  · simp [hp]
  · have hle : v.toNat ≤ v.toNat * π.sizeofDirentPointer :=
      Nat.le_mul_of_pos_right _ (Nat.pos_of_ne_zero hp)
    have hlt : v.toNat < 2 ^ π.sizeBits := Nat.lt_of_le_of_lt hle h
    have hmod : (v % 2 ^ π.sizeBits).toNat = v.toNat := by
      obtain ⟨n, rfl⟩ := Int.eq_ofNat_of_zero_le h0
      have hn : n < 2 ^ π.sizeBits := by simpa using hlt
      have hcast : ((n : Int) % 2 ^ π.sizeBits) = ((n % 2 ^ π.sizeBits : Nat) : Int) := by simp
      rw [hcast, Nat.mod_eq_of_lt hn]
    rw [hmod, Nat.mod_eq_of_lt h]

/-- On 64-bit Linux the array fits for any int count of entries. -/
theorem linux_fits {v : Word} (h : v ≤ 2147483647) :
    v.toNat * linux.sizeofDirentPointer < 2 ^ linux.sizeBits := by
  have hn : v.toNat ≤ 2147483647 := Int.toNat_le.mpr h
  calc v.toNat * 8 ≤ 2147483647 * 8 := Nat.mul_le_mul_right 8 hn
    _ < 2 ^ 64 := by decide

/-! ## The loop -/

section
variable {adm : Op → Answer → Prop}
  {Q : Effect.Halt Op Word Party → Shared → Local → List Event → Prop}
  {s : Shared} {l : Local} {es : List Event} {next : Word → Code Word}

theorem wp_load {p : Word}
    (h : (system π).wp adm Q (next (s.heap p)) s l (es ++ [⟨.load p, [], s.heap p, l, l⟩])) :
    (system π).wp adm Q (.perform (.load p) next) s l es :=
  System.wp_det (r := (s.heap p, s, l)) rfl (fun _ => rfl) h

theorem wp_record {r : Record}
    (h : ∀ e, (system π).wp adm Q (next 0) s { l with errno := e }
      (es ++ [⟨.record r, [], 0, l, { l with errno := e }⟩])) :
    (system π).wp adm Q (.perform (.record r) next) s l es :=
  (System.wp_run rfl).mpr fun a _ => ⟨(0, s, { l with errno := a.errno }), rfl, h a.errno⟩

/-- What a stretch of scandir reads and records. -/
structure Lists (es : List Event) (blocks : List (Word × Nat)) (slots : List Word) : Prop where
  recorded : recorded es = allocated blocks
  loaded : loaded es = slots

theorem Lists.append {es fs : List Event} {bs cs : List (Word × Nat)} {ps qs : List Word}
    (h : Lists es bs ps) (h' : Lists fs cs qs) : Lists (es ++ fs) (bs ++ cs) (ps ++ qs) where
  recorded := by simp [h.recorded, h'.recorded, allocated]
  loaded := by simp [h.loaded, h'.loaded]

/-- The array is read once for each entry, and each entry is read and recorded once, in the
order of the indices. -/
theorem wp_trackEntries {namelist : Word} {rest : Code Word} (n i : Nat)
    (h : ∀ l' fs, Lists fs (entriesAt π s.heap (s.heap namelist) i n)
      ((List.range' i n).flatMap fun j => [namelist, slotAt π (s.heap namelist) j]) →
      (system π).wp adm Q rest s l' (es ++ fs)) :
    (system π).wp adm Q ((trackEntries π namelist n i).bind fun _ => rest) s l es := by
  induction n generalizing i l es with
  | zero =>
    have hrest := h l [] ⟨rfl, rfl⟩
    rw [List.append_nil] at hrest
    exact hrest
  | succ n ih =>
    simp only [trackEntries, load, trackAlloc, Program.bind_def, Program.op_bind, act_bind,
      Program.perform_bind]
    refine wp_load (wp_load (wp_record fun e => ?_))
    refine ih (i + 1) fun l' fs hfs => ?_
    rw [List.append_assoc, List.append_assoc, List.append_assoc]
    refine h l' _ ?_
    rw [entriesAt_succ]
    have hone : Lists ([⟨.load namelist, [], s.heap namelist, l, l⟩] ++
        ([⟨.load (slotAt π (s.heap namelist) i), [], entryAt π s.heap (s.heap namelist) i, l, l⟩] ++
        [⟨.record (.alloc (entryAt π s.heap (s.heap namelist) i) π.sizeofDirent), [], 0, l,
          { l with errno := e }⟩])) [(entryAt π s.heap (s.heap namelist) i, π.sizeofDirent)]
        [namelist, slotAt π (s.heap namelist) i] := by
      constructor <;> simp [recordOf, loadOf, allocated]
    have hall := hone.append hfs
    rw [List.append_assoc, List.append_assoc] at hall
    exact hall

/-- The part of scandir after its native call: it records what was handed over, and reads the
array within its bounds. -/
def scandirTail (π : Platform) (namelist retVal : Word) : Code Word :=
  if retVal = -1 then failing .scandir retVal
  else (trackList π namelist retVal).bind fun _ => exiting .scandir retVal

structure Scans (π : Platform) (heap : Word → Word) (namelist v : Word) (es : List Event) :
    Prop where
  recorded : recorded es = allocated (handedOver π heap namelist v)
  bounded : ∀ p ∈ loaded es, p = namelist ∨ ∃ i, i < v.toNat ∧ p = slotAt π (heap namelist) i

theorem wp_scandirTail {namelist v : Word} (hv : ScandirResult π s.heap namelist v) :
    (system π).wp adm (fun h s' _ es => h = .returns v ∧ s' = s ∧ Scans π s.heap namelist v es)
      (scandirTail π namelist v) s l [] := by
  unfold scandirTail
  by_cases hfail : v = -1
  · rw [if_pos hfail]
    refine wp_getErrno (wp_raise (wp_traceExit fun _ => ⟨rfl, rfl, ?_⟩))
    constructor <;> simp [recordOf, loadOf, allocated, handedOver, hfail]
  rw [if_neg hfail]
  have hcount : 0 ≤ v := hv.count.resolve_left hfail
  simp only [trackList, load, trackAlloc, Program.bind_def, Program.op_bind, act_bind,
    Program.perform_bind]
  refine wp_load ?_
  by_cases hnull : s.heap namelist = NULL
  · have hwhen : ∀ p : Code Unit, when (s.heap namelist ≠ NULL) p = .done () := fun p => by
      simp [when, hnull]
    rw [hwhen, Program.done_bind]
    refine wp_traceExit fun _ => ⟨rfl, rfl, ?_⟩
    constructor <;> simp [recordOf, loadOf, allocated, handedOver, hnull]
  · have hwhen : ∀ p : Code Unit, when (s.heap namelist ≠ NULL) p = p := fun p => by
      simp [when, hnull]
    rw [hwhen]
    refine wp_load (wp_record fun e => ?_)
    refine wp_trackEntries v.toNat 0 fun l' fs hfs => wp_traceExit fun _ => ⟨rfl, rfl, ?_⟩
    constructor
    · simp [recordOf, hfs.recorded, allocated, handedOver, hfail, hnull, listSize_eq hcount hv.fits]
    · intro p hp
      simp only [loaded_append, hfs.loaded, List.nil_append, loaded_cons, loaded_nil, loadOf,
        Option.toList_some, Option.toList_none, List.append_nil, List.mem_append, List.mem_cons,
        List.not_mem_nil, or_false, List.mem_flatMap, List.mem_range'_1] at hp
      rcases hp with (rfl | rfl) | ⟨j, ⟨-, hj⟩, rfl | rfl⟩
      · exact .inl rfl
      · exact .inl rfl
      · exact .inl rfl
      · exact .inr ⟨j, by omega, rfl⟩

end

/-! ## One call -/

theorem scandirTail_avoids (namelist retVal : Word) :
    (scandirTail π namelist retVal).Avoids fun o => o.party ≠ none := by
  unfold scandirTail
  rw [Program.avoids_ite]
  constructor
  · intro _
    exact ⟨not_not.mpr rfl, fun _ => ⟨not_not.mpr rfl, fun _ => ⟨not_not.mpr rfl, fun _ => trivial⟩⟩⟩
  · intro _
    exact (trackList_inside π namelist retVal).bind fun _ => ⟨not_not.mpr rfl, fun _ => trivial⟩

/-- A call that waits for its native scandir has read and recorded nothing yet. -/
theorem scandir_waits {dir namelist sel compar : Word} {args : List Word} {es : List Event}
    {next : Word → Code Word}
    (h : Follows (p101Scandir π dir namelist sel compar) es (.perform (.native .scandir args) next)) :
    args = [dir, namelist, sel, compar] ∧ next = scandirTail π namelist ∧ Lists es [] [] := by
  rw [p101Scandir_eq] at h
  obtain ⟨entry, es, rfl, hentry, h⟩ := h.perform_ne (by simp)
  obtain ⟨check, es, rfl, hcheck, h⟩ := h.perform_ne (by simp)
  by_cases hfault : check.answer = 0
  · simp only [hfault, ne_eq, not_true_eq_false, if_false] at h
    obtain ⟨reset, es, rfl, hreset, h⟩ := h.perform_ne (by simp)
    cases es with
    | nil =>
      rw [Follows.nil_iff] at h
      obtain ⟨hop, hnext⟩ := Program.perform.inj h
      obtain ⟨-, hargs⟩ := Op.native.inj hop
      refine ⟨hargs.symm, hnext.symm, ?_⟩
      constructor <;> simp [recordOf, loadOf, allocated, hentry, hcheck, hreset]
    | cons main es =>
      obtain ⟨-, htail⟩ := h
      exact absurd (by simp [Op.party]) (htail.not_perform (scandirTail_avoids namelist main.answer))
  · simp only [hfault, ne_eq, not_false_eq_true, if_true] at h
    obtain ⟨raise, es, rfl, hraise, h⟩ := h.perform_ne (by simp)
    obtain ⟨exit, es, rfl, hexit, h⟩ := h.perform_ne (by simp)
    cases es with
    | nil => cases Follows.nil_iff.mp h
    | cons e es => exact absurd h Follows.done_cons

theorem entry_of_native {c : Call} {base : Word} {args : List Word} {es : List Event}
    {next : Word → Code Word}
    (h : Follows (c.code π base) es (.perform (.native .scandir args) next)) :
    ∃ dir namelist sel compar, c = .scandir dir namelist sel compar := by
  have hallows : c.allows (.native .scandir args) :=
    not_not.mp (h.not_perform (Call.footprint π base c))
  cases hc : c.api with
  | none =>
    simp only [Call.allows, hc] at hallows
    cases hallows
  | some f =>
    simp only [Call.allows, hc, Op.footprint, decide_eq_true_eq, reduceCtorEq, false_and,
      or_false] at hallows
    subst hallows
    cases c with
    | scandir dir namelist sel compar => exact ⟨dir, namelist, sel, compar, rfl⟩
    | _ => cases hc

/-- The frame under a running native scandir is the wrapper call that waits for it. -/
theorem scandir_frame {l : Local} {dir namelist sel compar : Word} {heard : List Word}
    {since : Local} {below : List Frame}
    (h : StackSound (system π) l
      (.outside (.native .scandir [dir, namelist, sel, compar]) heard since :: below))
    (hne : below ≠ []) :
    ∃ id act g heard' since' tail, below = .code id act (.perform
        (.native .scandir [dir, namelist, sel, compar]) (scandirTail π namelist)) ::
        .outside g heard' since' :: tail ∧
      act.entry = .scandir dir namelist sel compar ∧ Lists act.past [] [] ∧
      ∀ x, g.acts x = true := by
  obtain ⟨hawaits, hbelow⟩ := h
  cases below with
  | nil => exact absurd rfl hne
  | cons f below =>
  have hf := hawaits f rfl
  cases f with
  | outside g' heard' since' =>
    simp only [Awaits, system] at hf
    unfold Party.invokes at hf
    split at hf <;> simp_all
  | code id act rest =>
  cases rest with
  | done v => exact hf.elim
  | perform o next =>
    have ho : o = .native .scandir [dir, namelist, sel, compar] := by
      cases o <;> simp [Awaits, system, Op.party] at hf
      rw [hf.1, hf.2]
    subst ho
    obtain ⟨hact, ⟨f, tail, rfl, hperm⟩, -⟩ := hbelow
    have hfollows := hact.follows
    obtain ⟨dir', namelist', sel', compar', hentry⟩ := entry_of_native hfollows
    have hscan : Follows (p101Scandir π dir' namelist' sel' compar') act.past
        (.perform (.native .scandir [dir, namelist, sel, compar]) next) := by
      have hcode : (system π).code act.entry act.base =
          p101Scandir π dir' namelist' sel' compar' := by
        rw [hentry]
        rfl
      rw [← hcode]
      exact hfollows
    obtain ⟨hargs, rfl, hlists⟩ := scandir_waits hscan
    simp only [List.cons.injEq, and_true] at hargs
    obtain ⟨rfl, rfl, rfl, rfl⟩ := hargs
    cases f with
    | code => exact hperm.elim
    | outside g heard' since' =>
      refine ⟨id, act, g, heard', since', tail, rfl, hentry, hlists, fun x => ?_⟩
      rw [hentry] at hperm
      cases g with
      | main | user => rfl
      | native f args => cases f <;> cases hperm

/-! ## The ledger -/

theorem once_of_nodup {ks : List Word} (h : ks.Nodup) (b : Bool) (p : Word) :
    (ks.filterMap fun k => if k = p then some b else none) = if p ∈ ks then [b] else [] := by
  induction ks with
  | nil => rfl
  | cons k ks ih =>
    obtain ⟨hk, hks⟩ := List.nodup_cons.mp h
    by_cases hkp : k = p
    · subst hkp
      simp [ih hks, hk]
    · simp [ih hks, hkp, Ne.symm hkp]

theorem marks_allocated {t id : Nat} {es : List Event} {blocks : List (Word × Nat)}
    (hr : recorded es = allocated blocks) (hn : (blocks.map Prod.fst).Nodup) (p : Word) :
    blockMarks (es.map fun e => (t, .event id e)) p =
      if p ∈ blocks.map Prod.fst then [true] else [] := by
  rw [blockMarks, marks_events, hr, ← once_of_nodup hn true p, allocated]
  simp only [List.filterMap_map]
  rfl

theorem marks_freed {frees : List Word} (hn : frees.Nodup) (p : Word) :
    blockMarks (frees.map fun q => (0, .act (.free q))) p = if p ∈ frees then [false] else [] := by
  rw [← once_of_nodup hn false p, blockMarks, marks, List.filterMap_map]
  rfl

/-- The caller frees blocks one after the other. -/
theorem frees_run {g : Party} (hg : ∀ x, g.acts x = true) (frees : List (Word × Answer)) (σ : Solo)
    {heard : List Word} {since : Local} {below : List Frame}
    (hs : σ.thread.stack = .outside g heard since :: below) :
    ∃ σ', σ.run (system π) (fun _ _ => True) (frees.map fun f => .act (.free f.1) f.2) = some σ' ∧
      σ'.log = σ.log ++ frees.map fun f => .act (.free f.1) := by
  induction frees generalizing σ with
  | nil => exact ⟨σ, rfl, by simp⟩
  | cons f frees ih =>
    obtain ⟨s, ⟨l, stack⟩, log⟩ := σ
    dsimp only at hs
    subst hs
    obtain ⟨σ', hrun, hlog⟩ := ih ⟨s.write f.2.writes, ⟨⟨f.2.errno, l.active⟩,
      .outside g heard since :: below⟩, log ++ [.act (.free f.1)]⟩ rfl
    refine ⟨σ', ?_, by simp [hlog]⟩
    simp only [List.map_cons, Solo.run, if_true]
    rw [← hrun]
    simp [Solo.step, Thread.step, system, hg, disturb]

/-- The log of one thread as a log of the machine. -/
def tagged (log : List Item) : List (Nat × Item) := log.map fun i => (0, i)

/-- A scandir that returns `v` has recorded what was handed over, and freeing that leaves the
ledger as it was when the native scandir returned; that is as it was before the call, if the
selectors and comparators recorded nothing. -/
structure Scanned (π : Platform) (heap : Word → Word) (σ σ' : Solo) (id : Nat) (act : Activation)
    (dir namelist sel compar v : Word) : Prop where
  returned : σ'.log.getLast? = some (.exit id act v)
  entry : act.entry = .scandir dir namelist sel compar
  scans : Scans π heap namelist v act.past
  marks : ∀ p, blockMarks (tagged σ'.log) p = blockMarks (tagged σ.log) p ++
    if p ∈ (handedOver π heap namelist v).map Prod.fst then [true] else []
  restored : ∀ frees : List (Word × Answer),
    (frees.map Prod.fst).Perm ((handedOver π heap namelist v).map Prod.fst) →
    ∃ σ'', σ'.run (system π) (fun _ _ => True) (frees.map fun f => .act (.free f.1) f.2) =
        some σ'' ∧
      (∀ p, held (blockMarks (tagged σ''.log) p) = held (blockMarks (tagged σ.log) p)) ∧
      ∀ before between c base, σ.log = before ++ .call id c base :: between →
        (∀ p, blockMarks (tagged between) p = []) →
        ∀ p, held (blockMarks (tagged σ''.log) p) = held (blockMarks (tagged before) p)

theorem blockMarks_append (log more : List Item) (p : Word) :
    blockMarks (tagged (log ++ more)) p =
      blockMarks (tagged log) p ++ blockMarks (tagged more) p := by
  rw [tagged, List.map_append]
  exact marks_append _ _ _ p

theorem held_once (marks : List Bool) (c : Prop) [Decidable c] :
    held (marks ++ (if c then [true] else []) ++ if c then [false] else []) = held marks := by
  by_cases hc : c
  · simp only [hc, if_true, held, List.count_append]
    simp
  · simp [hc]

/-- From the return of any native scandir on. -/
theorem scanned_of_waiting {answer : Solo → Answer} {σ : Solo}
    {dir namelist sel compar : Word} {heard : List Word} {since : Local} {below : List Frame}
    {v : Word} {a : Answer}
    (hsound : StackSound (system π) σ.thread.loc σ.thread.stack)
    (hs : σ.thread.stack = .outside (.native .scandir [dir, namelist, sel, compar]) heard since ::
      below) (hne : below ≠ [])
    (hv : ScandirResult π (σ.shared.write a.writes).heap namelist v) :
    ∃ σ' id act, σ.play (system π) answer (.back v a) = some σ' ∧
      Scanned π (σ.shared.write a.writes).heap σ σ' id act dir namelist sel compar v := by
  rw [hs] at hsound
  obtain ⟨id, act, g, heard', since', tail, rfl, hentry, hpast, hg⟩ := scandir_frame hsound hne
  have hw : (system π).wp (Solo.given answer) (fun h s' _ es => h = .returns v ∧
      s' = σ.shared.write a.writes ∧ Scans π (σ.shared.write a.writes).heap namelist v es)
      (scandirTail π namelist v) (σ.shared.write a.writes) ⟨a.errno, σ.thread.loc.active⟩ [] :=
    wp_scandirTail hv
  obtain ⟨halt, s', l', es, ⟨rfl, rfl, hes⟩, hplay⟩ := Solo.play_back answer σ hs hw
  have hleave : leaveFrame act.entry act.base (σ.shared.write a.writes) =
      σ.shared.write a.writes := by
    simp [leaveFrame, hentry, Call.walk]
  obtain ⟨e, he⟩ : ∃ e : Event, e = ⟨.native .scandir [dir, namelist, sel, compar], heard, v, since,
    ⟨a.errno, σ.thread.loc.active⟩⟩ := ⟨_, rfl⟩
  obtain ⟨act', hact'⟩ : ∃ act', act' = (act.push e).pushAll es := ⟨_, rfl⟩
  have hnext : σ.play (system π) answer (.back v a) = some ⟨σ.shared.write a.writes,
      ⟨l', .outside g (heard' ++ [v]) since' :: tail⟩,
      σ.log ++ ([.event id e] ++ es.map (.event id) ++ [.exit id act' v])⟩ := by
    rw [hplay, Solo.halted_returns, hact', he]
    simp [system, disturb, hleave]
  have hpast' : act'.past = act.past ++ ([e] ++ es) := by simp [hact']
  have hrecord : recordOf e = none := by rw [he]; rfl
  have hload : loadOf e = none := by rw [he]; rfl
  have hlists : recorded act'.past = recorded es ∧ loaded act'.past = loaded es := by
    simp [hpast', hpast.recorded, hpast.loaded, hrecord, hload, allocated]
  have hscans : Scans π (σ.shared.write a.writes).heap namelist v act'.past :=
    ⟨hlists.1.trans hes.recorded, by rw [hlists.2]; exact hes.bounded⟩
  -- The native call itself and the exit make no mark.
  have hmarks : ∀ p,
      blockMarks (tagged ([.event id e] ++ es.map (.event id) ++ [.exit id act' v])) p =
      if p ∈ (handedOver π (σ.shared.write a.writes).heap namelist v).map Prod.fst then [true]
      else [] := by
    intro p
    have hevents : blockMarks (tagged ((e :: es).map (.event id))) p =
        if p ∈ (handedOver π (σ.shared.write a.writes).heap namelist v).map Prod.fst then [true]
        else [] := by
      rw [tagged, List.map_map]
      refine marks_allocated ?_ hv.distinct p
      rw [recorded_cons, hrecord]
      exact hes.recorded
    rw [← hevents, blockMarks_append]
    exact List.append_nil _
  refine ⟨_, id, act', hnext, ?_, by simp [hact', hentry], hscans, fun p => ?_, ?_⟩
  · rw [← List.append_assoc, List.getLast?_concat]
  · rw [blockMarks_append, hmarks]
  · intro frees hperm
    obtain ⟨σ'', hrun, hlog⟩ := frees_run hg frees ⟨σ.shared.write a.writes,
      ⟨l', .outside g (heard' ++ [v]) since' :: tail⟩,
      σ.log ++ ([.event id e] ++ es.map (.event id) ++ [.exit id act' v])⟩ rfl
    have hfreed : ∀ p, blockMarks (tagged (frees.map fun f => .act (.free f.1))) p =
        if p ∈ (handedOver π (σ.shared.write a.writes).heap namelist v).map Prod.fst then [false]
        else [] := by
      intro p
      have hnodup : (frees.map Prod.fst).Nodup := hperm.nodup_iff.mpr hv.distinct
      have hfrees := marks_freed hnodup p
      simp only [hperm.mem_iff] at hfrees
      rw [← hfrees, tagged, List.map_map, List.map_map]
      rfl
    have hheld : ∀ p, held (blockMarks (tagged σ''.log) p) = held (blockMarks (tagged σ.log) p) := by
      intro p
      rw [hlog, blockMarks_append, blockMarks_append, hmarks, hfreed, held_once]
    refine ⟨σ'', hrun, hheld, fun before between c base hbefore hquiet p => ?_⟩
    have hcalled : blockMarks (tagged (.call id c base :: between)) p = [] := hquiet p
    rw [hheld, hbefore, blockMarks_append, hcalled, List.append_nil]

/-- Every scandir records exactly the blocks it hands over, and an injected fault none. -/
theorem scandir_records {legal : Solo → Move → Prop} {answer : Solo → Answer} {heap : Word → Word}
    {σ : Solo} (h : Effect.Solo.Reach (system π) legal (startSolo heap) σ) :
    (∀ id act w c, .exit id act w ∈ σ.log → act.entry.api = some .scandir →
      (.scandir, c) ∈ consulted act.past → c ≠ 0 → recorded act.past = []) ∧
    ∀ dir namelist sel compar heard since below v a,
      σ.thread.stack = .outside (.native .scandir [dir, namelist, sel, compar]) heard since ::
        below → ScandirResult π (σ.shared.write a.writes).heap namelist v →
      ∃ σ' id act, σ.play (system π) answer (.back v a) = some σ' ∧
        Scanned π (σ.shared.write a.writes).heap σ σ' id act dir namelist sel compar v := by
  have hreach := h.toConfig
  constructor
  · intro id act w c hexit hapi hc h0
    have hlog : (0, Item.exit id act w) ∈ (σ.toConfig .main quietLocal).log :=
      List.mem_map.mpr ⟨_, hexit, rfl⟩
    obtain ⟨now, hact⟩ := hreach.accounted.returned 0 id act w hlog
    have hguard : act.entry.guard = some (.scandir, .errno, fun _ => -1) := by
      simp [Call.guard, hapi, Api.guard]
    have hcon := consulting_of_follows (code_faultable act.base hguard) hact.follows
    exact (faulted_of_ops hact (hcon.faulted hc h0)).recorded
  · intro dir namelist sel compar heard since below v a hs hv
    have hsound := hreach.accounted.sound 0
    have hstacked := (stacks_of_reach hreach).stacked 0
    simp only [Solo.toConfig, Function.update_self] at hsound hstacked
    refine scanned_of_waiting hsound hs ?_ hv
    rintro rfl
    rw [hs] at hstacked
    cases hstacked with
    | outside hbelow => cases hbelow

/-- A list of two entries at 200 and 300, in an array at 100. -/
def twoEntries : Answer := ⟨2, 0, [(8, 100), (100, 200), (108, 300)]⟩

theorem twoEntries_result (s : Shared) :
    ScandirResult linux (s.write twoEntries.writes).heap 8 2 := by
  have hblocks : handedOver linux (s.write twoEntries.writes).heap 8 2 =
      [(100, 16), (200, 280), (300, 280)] := rfl
  refine ⟨.inr (by decide), fun h => ?_, ?_, linux_fits (by decide)⟩
  · have hlist : (s.write twoEntries.writes).heap 8 = 100 := rfl
    rw [hlist] at h
    cases h
  · rw [hblocks]
    decide

/-- A scandir whose selector has been called once. -/
def scanning : List Move :=
  [.call (.scandir 9 8 7 0) 0 calm₀, .op calm₀, .op calm₀, .op calm₀, .hand,
    .invoke (.user 7 [6]) calm₀, .back 1 calm₀]

theorem scandir_records_two :
    ∃ σ, (startSolo fun _ => 0).run (system linux) (fun _ _ => True) scanning = some σ ∧
      ∃ σ' id act, σ.play (system linux) (fun _ => calm₀) (.back 2 twoEntries) = some σ' ∧
        Scanned linux (σ.shared.write twoEntries.writes).heap σ σ' id act 9 8 7 0 2 := by
  have hrun : ((startSolo fun _ => 0).run (system linux) (fun _ _ => True) scanning).map
      (fun σ => σ.thread.party) = some (some (.native .scandir [9, 8, 7, 0])) := by decide +kernel
  obtain ⟨σ, hσ, hparty⟩ := Option.map_eq_some_iff.mp hrun
  refine ⟨σ, hσ, ?_⟩
  have hreach := Effect.Solo.Reach.of_run .init hσ
  unfold Thread.party at hparty
  split at hparty
  · next g heard since below hs =>
    obtain rfl := Option.some.inj hparty
    exact (scandir_records hreach).2 9 8 7 0 heard since below 2 twoEntries hs
      (twoEntries_result σ.shared)
  · cases hparty

end P101Filesystem
