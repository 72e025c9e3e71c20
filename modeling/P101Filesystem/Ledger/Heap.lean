import P101Filesystem.Ledger.HeapPhases

/-!
# The heap ledger of many threads

realpath without a buffer hands out one block, scandir an array and its entries. Any number of
threads may make such calls at once and free what was returned to them, and the native layer
may hand out an address again as soon as it is free: the ledger is right at every moment, but
for the blocks of calls that have not returned.
-/
namespace P101Filesystem

open Effect Ledger Protocol

/-! ## Blocks -/

/-- The blocks that are handed out and not freed, and those that a running call of a thread has
got and not returned. -/
structure Blocks where
  live : Word → Bool
  inCall : List (Nat × Word)

/-- The blocks that a native call hands out; `heap` is the memory it leaves. -/
def given (π : Platform) (heap : Word → Word) (e : Event) : List Word :=
  match e.op with
  | .native .scandir [_, namelist, _, _] => (handedOver π heap namelist e.answer).map Prod.fst
  | _ => (handedOut e).toList

def Blocks.happened (π : Platform) (heap : Word → Word) (w : Blocks) (t : Nat) : Item → Blocks
  | .event _ e => ⟨fun p => w.live p || (given π heap e).contains p,
      w.inCall ++ (given π heap e).map (t, ·)⟩
  | .exit _ _ _ => { w with inCall := w.inCall.filter fun q => q.1 ≠ t }
  | .act (.free p) => { w with live := Function.update w.live p false }
  | _ => w

/-- A native scandir hands over a list that is in the memory of its thread. -/
def ListFits (π : Platform) (owner : Word → Option Nat) (heap : Word → Word) (t : Nat)
    (e : Event) : Prop :=
  match e.op with
  | .native .scandir [_, namelist, _, _] => ScandirResult π heap namelist e.answer ∧
      owner namelist = some t ∧
      ∀ i < e.answer.toNat, owner (slotAt π (heap namelist) i) = some t
  | _ => True

/-- What is handed out is fresh, no getcwd hands out a block, and callers free what was
returned to them and is not free. -/
def HeapFits (π : Platform) (owner : Word → Option Nat) (heap : Word → Word) (w : Blocks)
    (t : Nat) : Item → Prop
  | .event id e => (∀ p ∈ given π heap e, w.live p = false) ∧ ListFits π owner heap t e ∧
      BlockFits (.event id e)
  | .act (.free p) => w.live p = true ∧ ∀ q ∈ w.inCall, q.2 ≠ p
  | _ => True

instance (π : Platform) (heap : Word → Word) (namelist v : Word) :
    Decidable (ScandirResult π heap namelist v) :=
  decidable_of_iff ((v = -1 ∨ 0 ≤ v) ∧ (heap namelist = NULL → v ≤ 0) ∧
      ((handedOver π heap namelist v).map Prod.fst).Nodup ∧
      v.toNat * π.sizeofDirentPointer < 2 ^ π.sizeBits)
    ⟨fun ⟨h1, h2, h3, h4⟩ => ⟨h1, h2, h3, h4⟩, fun h => ⟨h.1, h.2, h.3, h.4⟩⟩

instance (π : Platform) (owner : Word → Option Nat) (heap : Word → Word) (t : Nat) (e : Event) :
    Decidable (ListFits π owner heap t e) := by
  unfold ListFits
  split <;> exact inferInstance

instance (π : Platform) (owner : Word → Option Nat) (heap : Word → Word) (w : Blocks) (t : Nat)
    (i : Item) : Decidable (HeapFits π owner heap w t i) :=
  match i with
  | .event _ _ => inferInstanceAs (Decidable (_ ∧ _ ∧ _))
  | .act (.free _) => inferInstanceAs (Decidable (_ ∧ _))
  | .act (.open _) | .act (.close _) => instDecidableTrue
  | .call .. | .invoke _ | .returned _ | .hand .. | .exit .. => instDecidableTrue

/-- Runs of any number of threads, each of which keeps to its own memory. -/
inductive HeapRun (π : Platform) (owner : Word → Option Nat) (heap : Word → Word) :
    Config → Blocks → Prop
  | start : HeapRun π owner heap (startConfig heap) ⟨fun _ => false, []⟩
  | step {cfg w t m s th i} : HeapRun π owner heap cfg w →
      keepsTo owner t (cfg.threads t) m = true →
      (cfg.threads t).step (system π) cfg.log.length cfg.shared m = some (s, th, i) →
      HeapFits π owner s.heap w t i →
      HeapRun π owner heap ⟨s, Function.update cfg.threads t th, cfg.log ++ [(t, i)]⟩
        (w.happened π s.heap t i)

/-- Runs a list of moves and keeps account of the blocks. -/
def heapRun (π : Platform) (owner : Word → Option Nat) (cfg : Config) (w : Blocks) :
    List (Nat × Move) → Option (Config × Blocks)
  | [] => some (cfg, w)
  | (t, m) :: rest =>
    if keepsTo owner t (cfg.threads t) m = true then
      ((cfg.threads t).step (system π) cfg.log.length cfg.shared m).bind fun r =>
        if HeapFits π owner r.1.heap w t r.2.2 then
          heapRun π owner ⟨r.1, Function.update cfg.threads t r.2.1, cfg.log ++ [(t, r.2.2)]⟩
            (w.happened π r.1.heap t r.2.2) rest
        else none
    else none

theorem HeapRun.of_heapRun {π : Platform} {owner : Word → Option Nat} {heap : Word → Word}
    {cfg cfg' : Config} {w w' : Blocks} {moves : List (Nat × Move)}
    (h : HeapRun π owner heap cfg w) (hrun : heapRun π owner cfg w moves = some (cfg', w')) :
    HeapRun π owner heap cfg' w' := by
  induction moves generalizing cfg w with
  | nil =>
    obtain ⟨rfl, rfl⟩ := Prod.mk.inj (Option.some.inj hrun)
    exact h
  | cons tm rest ih =>
    obtain ⟨t, m⟩ := tm
    simp only [heapRun] at hrun
    split at hrun
    · next hl =>
      obtain ⟨⟨s, th, i⟩, hstep, hrest⟩ := Option.bind_eq_some_iff.mp hrun
      dsimp only at hrest
      split at hrest
      · next hfits => exact ih (h.step hl hstep hfits) hrest
      · cases hrest
    · cases hrun

section
variable {π : Platform} {owner : Word → Option Nat} {t u : Nat} {heap heap' : Word → Word}

/-! ## What is left to record -/

/-- The entries `i`, `i + 1`, ... of an array, `n` of them. -/
def blocksAt (π : Platform) (heap : Word → Word) (list : Word) (i n : Nat) : List Word :=
  (List.range' i n).map (entryAt π heap list)

theorem handedOver_blocks {namelist v : Word} (hv : v ≠ -1) (hn : heap namelist ≠ NULL) :
    (handedOver π heap namelist v).map Prod.fst =
      heap namelist :: blocksAt π heap (heap namelist) 0 v.toNat := by
  simp [handedOver, hv, hn, entriesAt, blocksAt]

theorem handedOver_empty {namelist v : Word} (hn : heap namelist = NULL) :
    (handedOver π heap namelist v).map Prod.fst = [] := by
  simp [handedOver, hn]

theorem blocksAt_succ (list : Word) (i n : Nat) :
    blocksAt π heap list i (n + 1) = entryAt π heap list i :: blocksAt π heap list (i + 1) n := by
  simp [blocksAt, List.range'_succ]

def HeapPhase.pending (π : Platform) (heap : Word → Word) : HeapPhase → List Word
  | .idle => []
  | .allocated p => [p]
  | .scanned namelist v => (handedOver π heap namelist v).map Prod.fst
  | .found namelist v => (handedOver π heap namelist v).map Prod.fst
  | .array namelist v block => block :: blocksAt π heap (heap namelist) 0 v.toNat
  | .round namelist n i => blocksAt π heap (heap namelist) i n
  | .slot _ list n i => blocksAt π heap list i (n + 1)
  | .entry namelist block n i => block :: blocksAt π heap (heap namelist) (i + 1) n

/-- The list at `namelist` and its slots from `i` on, `n` of them, are in the thread's memory. -/
def OwnsList (π : Platform) (owner : Word → Option Nat) (t : Nat) (heap : Word → Word)
    (namelist : Word) (i n : Nat) : Prop :=
  owner namelist = some t ∧
    ∀ j, i ≤ j → j < i + n → owner (slotAt π (heap namelist) j) = some t

/-- What a phase knows of the memory it still reads. -/
def HeapPhase.Reads (π : Platform) (owner : Word → Option Nat) (t : Nat) (heap : Word → Word) :
    HeapPhase → Prop
  | .idle => True
  | .allocated _ => True
  | .scanned namelist v => v ≠ -1 ∧ OwnsList π owner t heap namelist 0 v.toNat
  | .found namelist v => v ≠ -1 ∧ heap namelist ≠ NULL ∧ OwnsList π owner t heap namelist 0 v.toNat
  | .array namelist v _ => OwnsList π owner t heap namelist 0 v.toNat
  | .round namelist n i => OwnsList π owner t heap namelist i n
  | .slot namelist list n i => list = heap namelist ∧ OwnsList π owner t heap namelist i (n + 1)
  | .entry namelist _ n i => OwnsList π owner t heap namelist (i + 1) n

theorem OwnsList.congr {namelist : Word} {i n : Nat} (h : OwnsList π owner t heap namelist i n)
    (ha : ∀ p, owner p = some t → heap p = heap' p) :
    OwnsList π owner t heap' namelist i n ∧ heap' namelist = heap namelist ∧
      blocksAt π heap' (heap namelist) i n = blocksAt π heap (heap namelist) i n := by
  have hlist : heap' namelist = heap namelist := (ha namelist h.1).symm
  refine ⟨⟨h.1, by rw [hlist]; exact h.2⟩, hlist, ?_⟩
  refine List.map_congr_left fun j hj => ?_
  rw [List.mem_range'_1] at hj
  exact (ha _ (h.2 j hj.1 hj.2)).symm

/-- Other memory does not matter to a phase. -/
theorem HeapPhase.Reads.congr {ph : HeapPhase} (h : ph.Reads π owner t heap)
    (ha : ∀ p, owner p = some t → heap p = heap' p) :
    ph.Reads π owner t heap' ∧ ph.pending π heap' = ph.pending π heap := by
  have handed : ∀ {namelist v : Word}, OwnsList π owner t heap namelist 0 v.toNat →
      (handedOver π heap' namelist v).map Prod.fst = (handedOver π heap namelist v).map Prod.fst := by
    intro namelist v hown
    obtain ⟨-, hlist, hblocks⟩ := hown.congr ha
    by_cases hv : v = -1
    · simp [handedOver, hv]
    by_cases hn : heap namelist = NULL
    · rw [handedOver_empty hn, handedOver_empty (hlist.trans hn)]
    · rw [handedOver_blocks hv hn, handedOver_blocks hv (by rw [hlist]; exact hn), hlist, hblocks]
  cases ph with
  | idle | allocated => exact ⟨trivial, rfl⟩
  | scanned namelist v => exact ⟨⟨h.1, (h.2.congr ha).1⟩, handed h.2⟩
  | found namelist v =>
    obtain ⟨hown, hlist, -⟩ := h.2.2.congr ha
    exact ⟨⟨h.1, by rw [hlist]; exact h.2.1, hown⟩, handed h.2.2⟩
  | array namelist v block =>
    obtain ⟨hown, hlist, hblocks⟩ := OwnsList.congr h ha
    exact ⟨hown, by rw [pending, pending, hlist, hblocks]⟩
  | round namelist n i =>
    obtain ⟨hown, hlist, hblocks⟩ := OwnsList.congr h ha
    exact ⟨hown, by rw [pending, pending, hlist, hblocks]⟩
  | slot namelist list n i =>
    obtain ⟨rfl, h⟩ := h
    obtain ⟨hown, hlist, hblocks⟩ := h.congr ha
    exact ⟨⟨hlist.symm, hown⟩, hblocks⟩
  | entry namelist block n i =>
    obtain ⟨hown, hlist, hblocks⟩ := OwnsList.congr h ha
    exact ⟨hown, by rw [pending, pending, hlist, hblocks]⟩

/-! ## The books -/

def heapAccount (π : Platform) (heap : Word → Word) (w : Blocks) (phases : Nat → HeapPhase) :
    Account Word Nat where
  live := fun p => w.live p = true
  opening := fun t => (phases t).pending π heap
  closing := fun _ => []
  lost := fun _ => 0

structure HeapBooks (π : Platform) (owner : Word → Option Nat) (heap : Word → Word) (w : Blocks)
    (marks : Word → List Bool) (phases : Nat → HeapPhase) : Prop where
  reads : ∀ t, (phases t).Reads π owner t heap
  inCall : ∀ t, ∀ p ∈ (phases t).pending π heap, (t, p) ∈ w.inCall
  agrees : (heapAccount π heap w phases).Agrees marks

variable {w w' : Blocks} {marks : Word → List Bool} {phases : Nat → HeapPhase} {ph' : HeapPhase}

theorem heapBooks_start : HeapBooks π owner heap ⟨fun _ => false, []⟩ (fun _ => [])
    fun _ => .idle where
  reads := fun _ => trivial
  inCall := fun t p hp => by cases hp
  agrees := Account.agrees_nothing.congr (fun p => by simp [heapAccount]) rfl rfl fun _ => rfl

/-- Writes to memory that no phase reads do not matter. -/
theorem HeapBooks.carry (hb : HeapBooks π owner heap w marks phases)
    (h : ∀ t, phases t = .idle ∨ ∀ p, owner p = some t → heap p = heap' p) :
    HeapBooks π owner heap' w marks phases := by
  have same : ∀ t, (phases t).Reads π owner t heap' ∧
      (phases t).pending π heap' = (phases t).pending π heap := by
    intro t
    rcases h t with hidle | ha
    · rw [hidle]
      exact ⟨trivial, rfl⟩
    · exact (hb.reads t).congr ha
  refine ⟨fun t => (same t).1, fun t p hp => hb.inCall t p (by rwa [(same t).2] at hp), ?_⟩
  exact hb.agrees.congr (fun _ => Iff.rfl) (funext fun t => (same t).2) rfl fun _ => rfl

/-- A step of thread `t` that neither hands out nor records nor frees a block. -/
theorem HeapBooks.still (hb : HeapBooks π owner heap w marks phases) (ph' : HeapPhase)
    (hr : ph'.Reads π owner t heap) (hp : ph'.pending π heap = (phases t).pending π heap)
    (hl : w'.live = w.live) (hc : ∀ u, ∀ p ∈ (phases u).pending π heap, (u, p) ∈ w'.inCall) :
    HeapBooks π owner heap w' marks (Function.update phases t ph') := by
  have same : ∀ u, (Function.update phases t ph' u).pending π heap = (phases u).pending π heap := by
    intro u
    by_cases hu : u = t
    · rw [hu, Function.update_self, hp]
    · rw [Function.update_of_ne hu]
  refine ⟨fun u => ?_, fun u p hup => hc u p (by rwa [same u] at hup), ?_⟩
  · by_cases hu : u = t
    · rw [hu, Function.update_self]
      exact hr
    · rw [Function.update_of_ne hu]
      exact hb.reads u
  · exact hb.agrees.congr (fun p => by simp [heapAccount, hl]) (funext same) rfl fun _ => rfl

/-- A native call hands out the blocks that the new phase has to record. -/
theorem HeapBooks.handOut {e : Event} (hb : HeapBooks π owner heap w marks phases) (ph' : HeapPhase)
    (hidle : phases t = .idle) (hfresh : ∀ p ∈ given π heap e, w.live p = false)
    (hd : (given π heap e).Nodup) (hr : ph'.Reads π owner t heap)
    (hp : ph'.pending π heap = given π heap e) (id : Nat) :
    HeapBooks π owner heap (w.happened π heap t (.event id e)) marks
      (Function.update phases t ph') := by
  have hnone : (heapAccount π heap w phases).opening t = [] := by
    simp [heapAccount, hidle, HeapPhase.pending]
  have hopen := hb.agrees.open t (given π heap e) hnone
    (fun p hm => ⟨by simp [heapAccount, hfresh p hm], fun _ => by simp [heapAccount]⟩) hd
  refine ⟨fun u => ?_, fun u p hup => ?_, hopen.congr (fun p => ?_) (funext fun u => ?_) rfl
    fun _ => rfl⟩
  · by_cases hu : u = t
    · rw [hu, Function.update_self]
      exact hr
    · rw [Function.update_of_ne hu]
      exact hb.reads u
  · refine List.mem_append.mpr ?_
    by_cases hu : u = t
    · rw [hu, Function.update_self, hp] at hup
      rw [hu]
      exact .inr (List.mem_map.mpr ⟨p, hup, rfl⟩)
    · rw [Function.update_of_ne hu] at hup
      exact .inl (hb.inCall u p hup)
  · simp [heapAccount, Account.open, Blocks.happened]
  · by_cases hu : u = t
    · simp [heapAccount, Account.open, hu, hp]
    · simp [heapAccount, Account.open, hu]

/-- The block at hand is recorded. -/
theorem HeapBooks.record {p : Word} (hb : HeapBooks π owner heap w marks phases) (ph' : HeapPhase)
    (hr : ph'.Reads π owner t heap)
    (hp : (phases t).pending π heap = p :: ph'.pending π heap) :
    HeapBooks π owner heap w (marked marks (some (p, true))) (Function.update phases t ph') := by
  have htake := hb.agrees.take t p (ph'.pending π heap) hp
  refine ⟨fun u => ?_, fun u q huq => ?_, htake.congr (fun _ => Iff.rfl) (funext fun u => ?_) rfl
    fun _ => rfl⟩
  · by_cases hu : u = t
    · rw [hu, Function.update_self]
      exact hr
    · rw [Function.update_of_ne hu]
      exact hb.reads u
  · by_cases hu : u = t
    · rw [hu, Function.update_self] at huq
      rw [hu]
      exact hb.inCall t q (by rw [hp]; exact List.mem_cons_of_mem _ huq)
    · rw [Function.update_of_ne hu] at huq
      exact hb.inCall u q huq
  · by_cases hu : u = t
    · simp [heapAccount, Account.toTake, hu]
    · simp [heapAccount, Account.toTake, hu]

/-- A block that was returned is freed, and the release recorded at once. -/
theorem HeapBooks.freed {p : Word} (hb : HeapBooks π owner heap w marks phases)
    (hlive : w.live p = true) (hreturned : ∀ q ∈ w.inCall, q.2 ≠ p) :
    HeapBooks π owner heap (w.happened π heap t (.act (.free p))) (marked marks (some (p, false)))
      phases := by
  have hclose := hb.agrees.close t [p] rfl (fun k hk => by
    rw [List.mem_singleton.mp hk]
    exact ⟨hlive, fun u hu => hreturned (u, p) (hb.inCall u p hu) rfl⟩) (by simp)
  have hgive := hclose.give t p [] (by simp [Account.close])
  refine ⟨hb.reads, hb.inCall, hgive.congr (fun q => ?_) rfl ?_ fun _ => rfl⟩
  · exact live_freed q
  · simp [heapAccount, Account.toGive, Account.close]

/-! ## One step -/

/-- An operation that calls nothing outside, or a native call that hands out nothing. -/
theorem happened_none {id : Nat} {e : Event} (h : given π heap e = []) :
    w.happened π heap t (.event id e) = w := by
  simp [Blocks.happened, h]

theorem given_of_party {e : Event} (h : e.op.party = none) : given π heap e = [] := by
  unfold given
  split
  · next ho =>
    rw [ho] at h
    cases h
  · rw [handedOut_of_party h]
    rfl

/-- The phase and the blocks stay as they are. -/
theorem HeapBooks.same (hb : HeapBooks π owner heap w marks phases) {ph : HeapPhase}
    (hph : phases t = ph) : HeapBooks π owner heap w marks (Function.update phases t ph) := by
  rw [← hph, Function.update_eq_self]
  exact hb

theorem HeapBooks.step {i : Item} (hb : HeapBooks π owner heap w marks phases)
    (hfits : HeapFits π owner heap w t i) (hadv : (heapTypestate π).Advance (phases t) i ph')
    (hload : ∀ id e p, i = .event id e → e.op = .load p → e.answer = heap p) :
    HeapBooks π owner heap (w.happened π heap t i)
      (marked marks (Item.mark Record.block Foreign.block (t, i)))
      (Function.update phases t ph') := by
  have hreads := hb.reads t
  generalize hph : phases t = ph at hadv hreads
  cases hadv with
  | @event _ _ id e hstep =>
    cases e with
    | mk o heard v before after =>
    have answer : ∀ p, o = .load p → v = heap p := fun p ho => hload id _ p rfl ho
    cases hstep with
    | inert hp hd =>
      have hmark : Item.mark Record.block Foreign.block
          (t, .event id ⟨o, heard, v, before, after⟩) = none := by
        cases o <;> first | rfl | exact hd
      rw [happened_none (given_of_party hp), hmark]
      exact hb.same hph
    | glance =>
      rw [happened_none (given_of_party rfl)]
      exact hb.same hph
    | @other f args _ h1 h2 =>
      have hnone : given π heap ⟨.native f args, heard, v, before, after⟩ = [] := by
        unfold given
        split
        · next ho => exact absurd (Op.native.inj ho).1 h2
        · unfold handedOut
          split
          · next ho => exact absurd (Op.native.inj ho).1 h1
          · next buf size ho =>
            obtain ⟨rfl, rfl⟩ := Op.native.inj ho
            have hnull : buf = NULL → v = NULL := hfits.2.2
            have hkept : ¬ (buf = NULL ∧ v ≠ NULL) := fun h => h.2 (hnull h.1)
            simp only [hkept, if_false, Option.toList_none]
          · rfl
      rw [happened_none hnone]
      exact hb.same hph
    | callback =>
      rw [happened_none rfl]
      exact hb.same hph
    | @realpath fileName v hv =>
      have hgiven : given π heap ⟨.native .realpath [fileName, NULL], heard, v, before, after⟩ =
          [v] := by simp [given, handedOut, hv]
      exact hb.handOut (.allocated v) hph hfits.1 (by simp [hgiven]) trivial hgiven.symm id
    | @realpathKept fileName resolvedName _ hv =>
      have hkept : ¬ (resolvedName = NULL ∧ v ≠ NULL) := fun h => h.2 (hv h.1)
      have hnone : given π heap
          ⟨.native .realpath [fileName, resolvedName], heard, v, before, after⟩ = [] := by
        simp only [given, handedOut, hkept, if_false, Option.toList_none]
      rw [happened_none hnone]
      exact hb.same hph
    | noteAlloc =>
      rw [happened_none (given_of_party rfl)]
      exact hb.record .idle trivial (by rw [hph]; rfl)
    | scandirFailed =>
      rw [happened_none (by simp [given, handedOver])]
      exact hb.same hph
    | @scandir dir namelist sel compar v hv =>
      obtain ⟨hfresh, ⟨hresult, hlist, hslots⟩, -⟩ := hfits
      have hr : (HeapPhase.scanned namelist v).Reads π owner t heap :=
        ⟨hv, hlist, fun j _ hj => hslots j (by simpa using hj)⟩
      exact hb.handOut (.scanned namelist v) hph hfresh hresult.distinct hr rfl id
    | @empty namelist v =>
      have hnull : heap namelist = NULL := (answer namelist rfl).symm
      rw [happened_none (given_of_party rfl)]
      refine hb.still .idle trivial ?_ rfl hb.inCall
      rw [hph, HeapPhase.pending, HeapPhase.pending, handedOver_empty hnull]
    | @find namelist u _ hlist =>
      rw [happened_none (given_of_party rfl)]
      have hne : heap namelist ≠ NULL := answer namelist rfl ▸ hlist
      exact hb.still (.found namelist u) ⟨hreads.1, hne, hreads.2⟩ (by rw [hph]; rfl) rfl hb.inCall
    | @fetch namelist u _ =>
      obtain ⟨hu, hne, hown⟩ := hreads
      rw [happened_none (given_of_party rfl)]
      refine hb.still (.array namelist u v) hown ?_ rfl hb.inCall
      rw [hph, HeapPhase.pending, HeapPhase.pending, handedOver_blocks hu hne, answer namelist rfl]
    | noteArray =>
      rw [happened_none (given_of_party rfl)]
      exact hb.record (.round _ _ 0) hreads (by rw [hph]; rfl)
    | @look namelist n i _ =>
      have hlist : v = heap namelist := answer namelist rfl
      rw [happened_none (given_of_party rfl)]
      refine hb.still (.slot namelist v n i) ⟨hlist, hreads⟩ ?_ rfl hb.inCall
      rw [hph, HeapPhase.pending, HeapPhase.pending, hlist]
    | @take namelist list n i _ =>
      obtain ⟨rfl, hown, hslots⟩ := hreads
      have hblock : v = entryAt π heap (heap namelist) i := answer _ rfl
      rw [happened_none (given_of_party rfl)]
      refine hb.still (.entry namelist v n i) ⟨hown, fun j hj hlt => ?_⟩ ?_ rfl hb.inCall
      · exact hslots j (by omega) (by omega)
      · rw [hph, HeapPhase.pending, HeapPhase.pending, blocksAt_succ, hblock]
    | noteEntry =>
      rw [happened_none (given_of_party rfl)]
      exact hb.record (.round _ _ _) hreads (by rw [hph]; rfl)
  | @act x =>
    cases x with
    | free p =>
      have hphases : Function.update phases t (heapTypestate π).idle = phases := by
        rw [← hph, Function.update_eq_self]
      rw [hphases]
      exact hb.freed hfits.1 hfits.2
    | «open» | close => exact hb.same hph
  | exit hfinal =>
    have hnone : (phases t).pending π heap = [] := by
      rw [hph]
      cases ph with
      | idle => rfl
      | round namelist n i =>
        obtain rfl : n = 0 := hfinal
        rfl
      | _ => exact absurd hfinal id
    refine hb.still .idle trivial (by rw [hnone]; rfl) rfl fun u p hp => ?_
    have hut : u ≠ t := by
      rintro rfl
      rw [hnone] at hp
      cases hp
    exact List.mem_filter.mpr ⟨hb.inCall u p hp, by simpa using hut⟩
  | call | invoke | returned | hand => exact hb.same hph

theorem run_heap {o : Op} {a : Answer} {s s' : Shared} {l l' : Local} {v : Word}
    (h : o.run a s l = some (v, s', l')) : s'.heap = s.heap := by
  cases o with
  | storeField k p f u =>
    obtain ⟨c, -, -, rfl, -⟩ := storeField_run h
    rfl
  | loadField k p f =>
    obtain ⟨c, -, -, -, rfl, -⟩ := loadField_run h
    rfl
  | native | callback => cases h
  | _ =>
    simp only [Op.run, Option.some.injEq, Prod.mk.injEq] at h
    rw [← h.2.1]

/-- Ordinary memory changes while a thread is idle only. -/
theorem heap_kept {n : Nat} {s s' : Shared} {th th' : Thread} {m : Move} {i : Item}
    {ph : HeapPhase} (h : Effect.Thread.Stepped (system π) n s th m s' th' i)
    (hp : (heapTypestate π).Phased ph th.stack) (hsound : StackSound (system π) th.loc th.stack) :
    ph = .idle ∨ s'.heap = s.heap := by
  cases h with
  | call hperm => exact .inl (hp.idle_of_reentrant (reentrant_of_permits hperm))
  | invoke hi => exact .inl (hp.idle_of_reentrant (reentrant_of_invokes hi))
  | act ha => exact .inl (hp.idle_of_reentrant (reentrant_of_acts ha))
  | @back l g heard since id act o next below v a =>
    have hparty : o.party = some g := hsound.1 _ rfl
    cases hp with
    | outside hp _ =>
      cases hp with
      | code _ hk =>
        obtain ⟨ph', hstep, -⟩ := hk v
        refine .inl ?_
        cases hstep with
        | inert hn => exact absurd (hn.symm.trans hparty) (by simp)
        | other | callback | realpath | realpathKept | scandir | scandirFailed => rfl
        | _ => cases hparty
  | backOutside =>
    have hinvokes := hsound.1 _ rfl
    cases hp with
    | outside hp _ => exact .inl (hp.idle_of_reentrant (reentrant_of_invokes hinvokes))
  | op _ hr => exact .inr (run_heap hr)
  | hand => exact .inr rfl
  | @exit l id act v =>
    refine .inr ?_
    cases hw : act.entry.walk with
    | none => simp [system, leaveFrame, hw]
    | some w => simp [system, leaveFrame, hw]

/-- A load answers what is in memory. -/
theorem load_answers {n : Nat} {s s' : Shared} {th th' : Thread} {m : Move} {i : Item}
    (h : Effect.Thread.Stepped (system π) n s th m s' th' i)
    (hsound : StackSound (system π) th.loc th.stack) :
    ∀ id e p, i = .event id e → e.op = .load p → e.answer = s'.heap p := by
  intro id e p hi ho
  cases h with
  | back =>
    obtain ⟨-, rfl⟩ := Item.event.inj hi
    have hparty := hsound.1 _ rfl
    dsimp only at ho
    rw [ho] at hparty
    cases hparty
  | op _ hr =>
    obtain ⟨-, rfl⟩ := Item.event.inj hi
    dsimp only at ho ⊢
    rw [ho] at hr
    obtain ⟨hv, hrest⟩ := Prod.mk.inj (Option.some.inj hr)
    rw [← hv, ← (Prod.mk.inj hrest).1]
  | _ => cases hi

/-! ## Runs -/

structure HeapState (π : Platform) (owner : Word → Option Nat) (cfg : Config) (w : Blocks)
    (phases : Nat → HeapPhase) : Prop where
  kept : KeptApart π owner cfg
  phased : ∀ t, (heapTypestate π).Phased (phases t) (cfg.threads t).stack
  books : HeapBooks π owner cfg.shared.heap w (blockMarks cfg.log) phases

theorem heapState_of_run {cfg : Config} (h : HeapRun π owner heap cfg w) :
    ∃ phases, HeapState π owner cfg w phases := by
  induction h with
  | start =>
    refine ⟨fun _ => .idle, ⟨stacks_start heap, Config.accounted_init _ _ _ _, fun t p hp => ?_⟩,
      fun _ => .bottom, heapBooks_start⟩
    simp [startConfig, Effect.Config.init, contexts] at hp
  | @step cfg w t m s th i _ hl hs hfits ih =>
    obtain ⟨phases, hkept, hphased, hbooks⟩ := ih
    have hst := Thread.stepped_of_step hs
    have hsound := hkept.accounted.sound t
    obtain ⟨ph', hadv, hnew⟩ := Typestate.advance_of_stepped hst (hphased t)
    have hcarry : ∀ u, phases u = .idle ∨ ∀ p, owner p = some u → cfg.shared.heap p = s.heap p := by
      intro u
      by_cases hu : u = t
      · subst hu
        exact (heap_kept hst (hphased u) hsound).imp_right fun hheap p _ => by rw [hheap]
      · refine .inr fun p hp => ?_
        exact (step_elsewhere hst hl (hkept.frames t) hkept.context hu p hp).2
    refine ⟨Function.update phases t ph', hkept.step hl (by simp [Config.step, hs]), fun u => ?_, ?_⟩
    · by_cases hu : u = t
      · subst hu
        simpa using hnew
      · simpa [Function.update_of_ne hu] using hphased u
    · have hmarks : blockMarks (cfg.log ++ [(t, i)]) = marked (blockMarks cfg.log)
          (Item.mark Record.block Foreign.block (t, i)) := marks_snoc _ cfg.log (t, i)
      dsimp only
      rw [hmarks]
      exact (hbooks.carry hcarry).step hfits hadv (load_answers hst hsound)

/-- In every run of any number of threads the records of each address alternate. At every
moment the ledger holds live blocks only, and all of them but those that calls have got and not
returned; while no call is in progress it holds all. -/
theorem heap_balance {cfg : Config} (h : HeapRun π owner heap cfg w) :
    (∀ p, Alternates (blockMarks cfg.log p)) ∧
      (∀ p, held (blockMarks cfg.log p) = true → w.live p = true) ∧
      (∀ p, w.live p = true → (∀ q ∈ w.inCall, q.2 ≠ p) → held (blockMarks cfg.log p) = true) ∧
      ((∀ t, UserRuns cfg t) → ∀ p, held (blockMarks cfg.log p) = true ↔ w.live p = true) := by
  obtain ⟨phases, hkept, hphased, hbooks⟩ := heapState_of_run h
  have hdue : ∀ p, held (blockMarks cfg.log p) = true ↔
      (heapAccount π cfg.shared.heap w phases).Due p := by
    intro p
    simp only [held, decide_eq_true_eq]
    by_cases hd : (heapAccount π cfg.shared.heap w phases).Due p
    · have hcount := hbooks.agrees.due p hd
      simp only [hd, iff_true]
      omega
    · have hcount := hbooks.agrees.notDue p hd
      simp only [heapAccount, Nat.add_zero] at hcount
      simp only [hd, iff_false]
      omega
  have hlive : ∀ p, (heapAccount π cfg.shared.heap w phases).Due p ↔
      w.live p = true ∧ ∀ t, p ∉ (phases t).pending π cfg.shared.heap := by
    intro p
    simp [Account.Due, heapAccount]
  refine ⟨fun p => hbooks.agrees.alternates p rfl, fun p hp => ?_, fun p hp hq => ?_,
    fun hu p => ?_⟩
  · exact ((hlive p).mp ((hdue p).mp hp)).1
  · refine (hdue p).mpr ((hlive p).mpr ⟨hp, fun t ht => ?_⟩)
    exact hq (t, p) (hbooks.inCall t p ht) rfl
  · rw [hdue, hlive, and_iff_left_iff_imp]
    intro _ t
    have hidle : phases t = .idle := idle_of_userRuns (fun _ hg => hg) (hphased t) (hu t)
    rw [hidle]
    exact List.not_mem_nil

end

/-- While thread 0 records a list, thread 1 gets a block; it frees an entry of the list and is
given its address. -/
def sharedHeap : List (Nat × Move) :=
  (0, .call (.scandir 9 8 7 0) 0 calm₀) :: runs 0 3 ++ [(0, .hand)] ++
  (1, .call (.realpath 9 NULL) 0 calm₀) :: runs 1 3 ++ [(1, .hand)] ++
  (0, .back 2 twoEntries) :: runs 0 4 ++
  (1, .back 400 calm₀) :: runs 1 1 ++ runs 0 6 ++ runs 1 2 ++ [(0, .exit), (1, .exit)] ++
  (1, .act (.free 200) calm₀) ::
  (1, .call (.realpath 9 NULL) 0 calm₀) :: runs 1 3 ++ answers 1 200 ++
  runs 1 3 ++ [(1, .exit)]

theorem heap_balance_shared :
    ∃ cfg w, HeapRun linux (fun p => some (if p < 150 then 0 else 1)) (fun _ => 0) cfg w ∧
      blockMarks cfg.log 200 = [true, false, true] ∧ (∀ p, Alternates (blockMarks cfg.log p)) ∧
      ∀ p, held (blockMarks cfg.log p) = true ↔ w.live p = true := by
  have hrun : (heapRun linux (fun p => some (if p < 150 then 0 else 1)) (startConfig fun _ => 0)
      ⟨fun _ => false, []⟩ sharedHeap).map (fun r => (r.2.inCall, blockMarks r.1.log 200)) =
      some ([], [true, false, true]) := by decide +kernel
  obtain ⟨⟨cfg, w⟩, hcfg, hstate⟩ := Option.map_eq_some_iff.mp hrun
  obtain ⟨hnone, hmarks⟩ := Prod.mk.inj hstate
  have hheap := HeapRun.of_heapRun .start hcfg
  obtain ⟨halt, hlive, hheld, -⟩ := heap_balance hheap
  refine ⟨cfg, w, hheap, hmarks, halt, fun p => ⟨hlive p, fun hp => hheld p hp fun q hq => ?_⟩⟩
  dsimp only at hnone
  rw [hnone] at hq
  cases hq

end P101Filesystem
