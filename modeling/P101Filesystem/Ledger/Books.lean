import P101Filesystem.Ledger.Handles
import P101Filesystem.Ledger.Phases
import Mathlib.Data.List.Nodup

/-!
# The directory ledger step by step

`Books` relates what is live, what each thread has still to record and the marks of the
ledger. One step of any thread keeps it, as long as nothing is handed out again that some
thread has closed and not recorded.
-/
namespace P101Filesystem

open Effect Ledger

variable {π : Platform} {ν : NativeDirectory}

/-- What a call in this phase of thread `t` knows of the handles. -/
def DirectoryPhase.Holds (h : Handles) (t : Nat) : DirectoryPhase → Prop
  | .opened p | .noted p | .adopted p | .closedir p => ∃ s, h.streams p = some s ∧ s.user = some t
  | .known p fd => h.streams p = some ⟨some fd, some t⟩
  | .asked p fd => ∃ s, h.streams p = some s ∧ s.user = some t ∧ s.Tells fd
  | .made fd => h.descriptors fd = some (.caller (some t))
  | _ => True

def streamKey (π : Platform) (p : Word) : DirectoryKey := .stream (π.pointerResourceId p)

/-- What is open and not recorded yet. -/
def DirectoryPhase.opening (π : Platform) (h : Handles) : DirectoryPhase → List DirectoryKey
  | .opened p => h.keys π p
  | .known p fd => [.descriptor fd, streamKey π p]
  | .noted p | .adopted p => [streamKey π p]
  | .made fd => [.descriptor fd]
  | _ => []

/-- What is closed and not recorded yet. -/
def DirectoryPhase.closing (π : Platform) : DirectoryPhase → List DirectoryKey
  | .closed p fd => [.descriptor fd, streamKey π p]
  | .unnoted p => [streamKey π p]
  | _ => []

def directoryAccount (π : Platform) (h : Handles) (phases : Nat → DirectoryPhase) :
    Account DirectoryKey Nat where
  live := h.Live π
  opening := fun t => (phases t).opening π h
  closing := fun t => (phases t).closing π
  lost := fun k => h.lost.count k

structure Books (π : Platform) (h : Handles) (marks : DirectoryKey → List Bool)
    (phases : Nat → DirectoryPhase) : Prop where
  wf : h.Wf
  holds : ∀ t, (phases t).Holds h t
  agrees : (directoryAccount π h phases).Agrees marks

theorem books_start : Books π Handles.start (fun _ => []) fun _ => .idle where
  wf := Handles.wf_start
  holds := fun _ => trivial
  agrees := Account.agrees_nothing.congr
    (fun k => by cases k <;> simp [directoryAccount, Handles.Live, Handles.start]) rfl rfl
    fun _ => rfl

theorem Books.tick {h : Handles} {marks : DirectoryKey → List Bool}
    {phases : Nat → DirectoryPhase} (hb : Books π h marks phases) :
    Books π h.tick marks phases where
  wf := hb.wf.tick
  holds := hb.holds
  agrees := hb.agrees

/-! ## Threads do not disturb each other -/

section
variable {h h' : Handles} {t u : Nat} {ph : DirectoryPhase} {k : DirectoryKey}

theorem DirectoryPhase.Holds.spared (π : Platform) (hs : Handles.Spares t h h') (hu : u ≠ t)
    (hh : ph.Holds h u) : ph.Holds h' u ∧ ph.opening π h' = ph.opening π h := by
  cases ph with
  | opened p =>
    obtain ⟨s, hp, hsu⟩ := hh
    have hp' := hs.streams hp hsu hu
    exact ⟨⟨s, hp', hsu⟩, by simp [opening, Handles.keys, hp, hp']⟩
  | noted p | adopted p | closedir p =>
    obtain ⟨s, hp, hsu⟩ := hh
    exact ⟨⟨s, hs.streams hp hsu hu, hsu⟩, rfl⟩
  | known p fd => exact ⟨hs.streams hh rfl hu, rfl⟩
  | asked p fd =>
    obtain ⟨s, hp, hsu, ht⟩ := hh
    exact ⟨⟨s, hs.streams hp hsu hu, hsu, ht⟩, rfl⟩
  | made fd => exact ⟨hs.descriptors hh hu, rfl⟩
  | _ => exact ⟨trivial, rfl⟩

/-- Thread `u` is the one that opens or closes what `k` stands for. -/
def Handles.UsedBy (π : Platform) (h : Handles) (u : Nat) : DirectoryKey → Prop
  | .descriptor fd => h.descriptors fd = some (.caller (some u)) ∨
      ∃ p s, h.descriptors fd = some (.stream p) ∧ h.streams p = some s ∧ s.user = some u
  | .stream id => ∃ p s, π.pointerResourceId p = id ∧ h.streams p = some s ∧ s.user = some u

theorem usedBy_unique (ht : h.UsedBy π t k) (hu : h.UsedBy π u k) : t = u := by
  cases k with
  | descriptor fd =>
    rcases ht with ht | ⟨p, s, hd, hp, hs⟩ <;> rcases hu with hu | ⟨q, s', hd', hq, hs'⟩
    · rw [ht] at hu
      cases hu
      rfl
    · rw [ht] at hd'
      cases hd'
    · rw [hu] at hd
      cases hd
    · rw [hd] at hd'
      cases hd'
      rw [hp] at hq
      cases hq
      exact Option.some.inj (hs.symm.trans hs')
  | stream id =>
    obtain ⟨p, s, hp, hs, hsu⟩ := ht
    obtain ⟨q, s', hq, hs', hsu'⟩ := hu
    obtain rfl := π.pointerResourceId_injective (hp.trans hq.symm)
    rw [hs] at hs'
    cases hs'
    exact Option.some.inj (hsu.symm.trans hsu')

theorem usedBy_keys (hw : h.Wf) {p : Word} {s : Stream} (hp : h.streams p = some s)
    (hs : s.user = some t) (hk : k ∈ h.keys π p) : h.UsedBy π t k := by
  have hstream : h.UsedBy π t (.stream (π.pointerResourceId p)) := ⟨p, s, rfl, hp, hs⟩
  unfold Handles.keys at hk
  split at hk
  · next fd hd =>
    simp only [hp, Option.bind_some] at hd
    simp only [List.mem_cons, List.not_mem_nil, or_false] at hk
    rcases hk with rfl | rfl
    · exact .inr ⟨p, s, (hw.owned hp hd).2, hp, hs⟩
    · exact hstream
  · rw [List.mem_singleton] at hk
    exact hk ▸ hstream

theorem DirectoryPhase.Holds.usedBy (hw : h.Wf) (hh : ph.Holds h t)
    (hk : k ∈ ph.opening π h) : h.UsedBy π t k := by
  cases ph with
  | opened p =>
    obtain ⟨s, hp, hs⟩ := hh
    exact usedBy_keys hw hp hs hk
  | known p fd =>
    refine usedBy_keys hw hh rfl ?_
    simpa [opening, Handles.keys, show h.streams p = _ from hh, streamKey] using hk
  | noted p | adopted p =>
    obtain ⟨s, hp, hs⟩ := hh
    rw [opening, List.mem_singleton] at hk
    exact hk ▸ ⟨p, s, rfl, hp, hs⟩
  | made fd =>
    rw [opening, List.mem_singleton] at hk
    exact hk ▸ .inl hh
  | _ => cases hk

theorem keys_nodup (π : Platform) (h : Handles) (p : Word) : (h.keys π p).Nodup := by
  unfold Handles.keys
  split <;> simp

/-- A live stream's keys, when dirfd tells `fd`. -/
theorem keys_of_tells (π : Platform) (hw : h.Wf) {p fd : Word} {s : Stream}
    (hp : h.streams p = some s) (ht : s.Tells fd) :
    h.keys π p = if 0 ≤ fd then [.descriptor fd, streamKey π p] else [streamKey π p] := by
  unfold Stream.Tells at ht
  split at ht
  · next d hd =>
    have hnn := (hw.owned hp hd).1
    simp [Handles.keys, hp, hd, ht, hnn, streamKey]
  · next hd =>
    have hneg : ¬ 0 ≤ fd := Int.not_le.mpr ht
    simp [Handles.keys, hp, hd, hneg, streamKey]

theorem live_keys (hw : h.Wf) {p : Word} {s : Stream} (hp : h.streams p = some s)
    (hk : k ∈ h.keys π p) : h.Live π k := by
  have hstream : h.Live π (.stream (π.pointerResourceId p)) := ⟨p, by simp [hp], rfl⟩
  unfold Handles.keys at hk
  split at hk
  · next fd hd =>
    simp only [hp, Option.bind_some] at hd
    simp only [List.mem_cons, List.not_mem_nil, or_false] at hk
    rcases hk with rfl | rfl
    · simp [Handles.Live, (hw.owned hp hd).2]
    · exact hstream
  · rw [List.mem_singleton] at hk
    exact hk ▸ hstream

theorem live_openStream {p : Word} {d : Option Word} (hp : h.streams p = none) :
    (h.openStream t p d).Live π k ↔
      h.Live π k ∨ k ∈ (d.map DirectoryKey.descriptor).toList ++ [streamKey π p] := by
  cases k with
  | descriptor fd =>
    simp only [Handles.Live, Handles.openStream_descriptors, streamKey]
    by_cases hd : d = some fd
    · simp [hd]
    · simp [hd]
  | stream id =>
    simp only [Handles.Live, Handles.openStream_streams, streamKey]
    constructor
    · rintro ⟨q, hq, rfl⟩
      by_cases hqp : q = p
      · exact .inr (by simp [hqp])
      · rw [Function.update_of_ne hqp] at hq
        exact .inl ⟨q, hq, rfl⟩
    · rintro (⟨q, hq, rfl⟩ | hid)
      · have hqp : q ≠ p := by
          rintro rfl
          simp [hp] at hq
        exact ⟨q, by rwa [Function.update_of_ne hqp], rfl⟩
      · refine ⟨p, by simp, ?_⟩
        simpa [eq_comm] using hid

theorem live_closeStream {p : Word} {s : Stream} (hp : h.streams p = some s) :
    (h.closeStream p).Live π k ↔ h.Live π k ∧ k ∉ h.keys π p := by
  cases k with
  | descriptor fd =>
    simp only [Handles.Live, Handles.closeStream_descriptors, Handles.keys, hp, Option.bind_some]
    cases hd : s.descriptor with
    | none => simp
    | some c =>
      by_cases hc : c = fd
      · simp [hc]
      · simp [hc, Ne.symm hc]
  | stream id =>
    have hmem : DirectoryKey.stream id ∈ h.keys π p ↔ π.pointerResourceId p = id := by
      unfold Handles.keys
      split <;> simp [eq_comm]
    simp only [Handles.Live, Handles.closeStream_streams, hmem]
    constructor
    · rintro ⟨q, hq, rfl⟩
      have hqp : q ≠ p := by
        rintro rfl
        simp at hq
      rw [Function.update_of_ne hqp] at hq
      exact ⟨⟨q, hq, rfl⟩, fun he => hqp (π.pointerResourceId_injective he).symm⟩
    · rintro ⟨⟨q, hq, rfl⟩, hne⟩
      have hqp : q ≠ p := by
        rintro rfl
        exact hne rfl
      exact ⟨q, by rwa [Function.update_of_ne hqp], rfl⟩

end

/-! ## One step -/

section
variable {h h' : Handles} {t : Nat} {ph' : DirectoryPhase} {marks marks' : DirectoryKey → List Bool}
  {phases : Nat → DirectoryPhase}

/-- The account after thread `t` has reached `ph'`. -/
theorem Books.moved (hb : Books π h marks phases) (hw : h'.Wf) (hs : Handles.Spares t h h')
    (hh : ph'.Holds h' t)
    (ha : (⟨h'.Live π, Function.update (directoryAccount π h phases).opening t (ph'.opening π h'),
      Function.update (directoryAccount π h phases).closing t (ph'.closing π),
      fun k => h'.lost.count k⟩ : Account DirectoryKey Nat).Agrees marks') :
    Books π h' marks' (Function.update phases t ph') where
  wf := hw
  holds := by
    intro u
    by_cases hu : u = t
    · subst hu
      simpa using hh
    · rw [Function.update_of_ne hu]
      exact ((hb.holds u).spared π hs hu).1
  agrees := by
    refine ha.congr (fun k => Iff.rfl) (funext fun u => ?_) (funext fun u => ?_) fun k => rfl
    · by_cases hu : u = t
      · subst hu
        simp [directoryAccount]
      · simp only [directoryAccount, Function.update_of_ne hu]
        exact ((hb.holds u).spared π hs hu).2
    · by_cases hu : u = t
      · subst hu
        simp [directoryAccount]
      · simp [directoryAccount, Function.update_of_ne hu]

/-- A step that neither hands out nor takes back nor records anything. -/
theorem Books.still (hb : Books π h marks phases) (hw : h'.Wf) (hs : Handles.Spares t h h')
    (hh : ph'.Holds h' t) (hlive : ∀ k, h'.Live π k ↔ h.Live π k) (hlost : h'.lost = h.lost)
    (ho : ph'.opening π h' = (phases t).opening π h)
    (hc : ph'.closing π = (phases t).closing π) :
    Books π h' marks (Function.update phases t ph') := by
  refine hb.moved hw hs hh (hb.agrees.congr hlive ?_ ?_ fun k => by rw [hlost]; rfl)
  · rw [ho]
    exact Function.update_eq_self t _
  · rw [hc]
    exact Function.update_eq_self t _

/-- The first thing to record as opened is recorded. -/
theorem Books.recorded (hb : Books π h marks phases) (hh : ph'.Holds h t) {k : DirectoryKey}
    (ho : (phases t).opening π h = k :: ph'.opening π h)
    (hc : ph'.closing π = (phases t).closing π) :
    Books π h (Function.update marks k (marks k ++ [true])) (Function.update phases t ph') := by
  have htake := hb.agrees.take t _ _ ho
  refine hb.moved hb.wf .refl hh (htake.congr (fun k => Iff.rfl) rfl ?_ fun k => rfl)
  rw [hc]
  exact Function.update_eq_self t _

/-- The first thing to record as closed is recorded. -/
theorem Books.unrecorded (hb : Books π h marks phases) (hh : ph'.Holds h t) {k : DirectoryKey}
    (hc : (phases t).closing π = k :: ph'.closing π)
    (ho : ph'.opening π h = (phases t).opening π h) :
    Books π h (Function.update marks k (marks k ++ [false])) (Function.update phases t ph') := by
  have hgive := hb.agrees.give t _ _ hc
  refine hb.moved hb.wf .refl hh (hgive.congr (fun k => Iff.rfl) ?_ rfl fun k => rfl)
  rw [ho]
  exact Function.update_eq_self t _

/-- Nothing that a thread is closing is what another one is opening. -/
theorem Books.notOpening (hb : Books π h marks phases) (ht : (phases t).opening π h = [])
    {k : DirectoryKey} (hu : h.UsedBy π t k) (u : Nat) : k ∉ (phases u).opening π h := by
  intro hk
  have htu := usedBy_unique hu ((hb.holds u).usedBy hb.wf hk)
  rw [← htu, ht] at hk
  cases hk

/-- Handing out what nobody is about to record as closed. -/
theorem Books.handOut (hb : Books π h marks phases) (hw : h'.Wf) (hs : Handles.Spares t h h')
    (hh : ph'.Holds h' t) (ks : List DirectoryKey) (hks : ks.Nodup)
    (hnew : ∀ k ∈ ks, ¬ h.Live π k) (hwin : ∀ k ∈ ks, ∀ u, k ∉ (phases u).closing π)
    (hlive : ∀ k, h'.Live π k ↔ h.Live π k ∨ k ∈ ks) (hlost : h'.lost = h.lost)
    (ho : (phases t).opening π h = []) (ho' : ph'.opening π h' = ks)
    (hc : ph'.closing π = (phases t).closing π) :
    Books π h' marks (Function.update phases t ph') := by
  have hopen := hb.agrees.open t ks ho (fun k hk => ⟨hnew k hk, hwin k hk⟩) hks
  refine hb.moved hw hs hh (hopen.congr hlive ?_ ?_ fun k => by rw [hlost]; rfl)
  · rw [ho']
    rfl
  · rw [hc]
    exact Function.update_eq_self t _

/-- Closing a stream that this thread has to itself. -/
theorem Books.close (hb : Books π h marks phases) {p fd : Word} (hph : phases t = .asked p fd)
    (hh : ph'.Holds (h.closeStream p) t) (ho : ph'.opening π (h.closeStream p) = [])
    (hc : ph'.closing π = if 0 ≤ fd then [.descriptor fd, streamKey π p] else [streamKey π p]) :
    Books π (h.closeStream p) marks (Function.update phases t ph') := by
  have hasked := hb.holds t
  rw [hph] at hasked
  obtain ⟨s, hp, hs, htells⟩ := hasked
  have hopening : (phases t).opening π h = [] := by rw [hph]; rfl
  have hclosing : (phases t).closing π = [] := by rw [hph]; rfl
  have hclose := hb.agrees.close t (h.keys π p) hclosing
    (fun k hk => ⟨live_keys hb.wf hp hk,
      hb.notOpening hopening (usedBy_keys hb.wf hp hs hk)⟩) (keys_nodup π h p)
  refine hb.moved hb.wf.closeStream (Handles.spares_closeStream hb.wf hp hs) hh
    (hclose.congr (fun k => live_closeStream hp) ?_ ?_
      fun k => by simp [Account.close, directoryAccount])
  · rw [ho, ← hopening]
    exact Function.update_eq_self t _
  · rw [hc, ← keys_of_tells π hb.wf hp htells]
    rfl

/-- A failing closedir that ends the stream leaves what was recorded. -/
theorem Books.lose (hb : Books π h marks phases) {p fd : Word} (hph : phases t = .asked p fd) :
    Books π (h.lose π p) marks (Function.update phases t .idle) := by
  have hasked := hb.holds t
  rw [hph] at hasked
  obtain ⟨s, hp, hs, htells⟩ := hasked
  have hopening : (phases t).opening π h = [] := by rw [hph]; rfl
  have hclosing : (phases t).closing π = [] := by rw [hph]; rfl
  have hlose := hb.agrees.lose (h.keys π p)
    (fun k hk => ⟨live_keys hb.wf hp hk,
      hb.notOpening hopening (usedBy_keys hb.wf hp hs hk)⟩)
  have hw : (h.lose π p).Wf := ⟨hb.wf.closeStream.owned⟩
  have hspares := Handles.spares_closeStream hb.wf hp hs
  have hs' : Handles.Spares t h (h.lose π p) := ⟨hspares.streams, hspares.descriptors⟩
  refine hb.moved hw hs' trivial (hlose.congr (fun k => live_closeStream hp) ?_ ?_ fun k => ?_)
  · exact (congrArg (Function.update _ t) hopening.symm).trans (Function.update_eq_self t _)
  · exact (congrArg (Function.update _ t) hclosing.symm).trans (Function.update_eq_self t _)
  · simp only [Handles.lose, Account.lose, directoryAccount, List.count_append]
    have hnd := keys_nodup π h p
    by_cases hk : k ∈ h.keys π p
    · rw [List.count_eq_one_of_mem hnd hk, if_pos hk, Nat.add_comm]
    · rw [List.count_eq_zero_of_not_mem hk, if_neg hk, Nat.zero_add]

theorem live_use {p : Word} (k : DirectoryKey) : (h.use t p).Live π k ↔ h.Live π k := by
  cases k with
  | descriptor fd => rfl
  | stream id =>
    have hsome : ∀ q, ((h.use t p).streams q).isSome = (h.streams q).isSome := by
      intro q
      by_cases hq : q = p
      · subst hq
        simp [Handles.use]
      · simp [Handles.use, hq]
    simp [Handles.Live, hsome]

theorem live_leave (k : DirectoryKey) : (h.leave t).Live π k ↔ h.Live π k := by
  cases k <;> simp [Handles.Live, Handles.leave]

theorem live_assign {fd : Word} {o : Owner} (k : DirectoryKey) :
    (h.assign fd (some o)).Live π k ↔ h.Live π k ∨ k ∈ [DirectoryKey.descriptor fd] := by
  cases k with
  | descriptor fd' => by_cases hfd : fd' = fd <;> simp [Handles.Live, hfd]
  | stream id => simp [Handles.Live]

theorem live_drop {fd : Word} (k : DirectoryKey) :
    (h.assign fd none).Live π k ↔ h.Live π k ∧ k ∉ [DirectoryKey.descriptor fd] := by
  cases k with
  | descriptor fd' => by_cases hfd : fd' = fd <;> simp [Handles.Live, hfd]
  | stream id => simp [Handles.Live]

theorem not_live_of_free (π : Platform) {fd : Word} (hfd : h.Free fd) :
    ¬ h.Live π (.descriptor fd) := by
  simp [Handles.Live, hfd.2]

theorem not_live_of_none {p : Word} (hp : h.streams p = none) : ¬ h.Live π (streamKey π p) := by
  rintro ⟨q, hq, hid⟩
  obtain rfl := π.pointerResourceId_injective hid
  simp [hp] at hq

/-- A call of a wrapper, or a trampoline. -/
theorem Books.called {id : Nat} {c : Call} {base : Word} (hb : Books π h marks phases)
    (hok : h.Admits ν (.call id c base)) (hph : phases t = .idle) :
    Books π (h.happened π ν (t, .call id c base)) marks
      (Function.update phases t c.directoryPhase) := by
  have hopening : (phases t).opening π h = [] := by rw [hph]; rfl
  have hclosing : (phases t).closing π = [] := by rw [hph]; rfl
  cases c with
  | closedir p =>
    obtain ⟨s, hs, hu⟩ := hok
    have hused : (h.use t p).streams p = some { s with user := some t } := by
      have hs' : h.streams p = some s := hs
      simp [Handles.use, hs']
    exact hb.still hb.wf.use (Handles.spares_use hs hu) ⟨_, hused, rfl⟩ live_use rfl
      hopening.symm hclosing.symm
  | _ => exact hb.still hb.wf .refl trivial (fun _ => Iff.rfl) rfl hopening.symm hclosing.symm

/-- A stream that is handed out belongs to the thread that asked for it. -/
theorem Books.opened (hb : Books π h marks phases) {p : Word} {d : Option Word}
    (hph : phases t = .opendir) (hp : h.streams p = none) (hfree : ∀ fd ∈ d, h.Free fd)
    (hwin : ∀ k ∈ (d.map DirectoryKey.descriptor).toList ++ [streamKey π p],
      ∀ u, k ∉ (phases u).closing π) :
    Books π (h.openStream t p d) marks (Function.update phases t (.opened p)) := by
  have hdescriptor : ∀ fd ∈ d, ∀ o, h.descriptors fd ≠ some o := by
    intro fd hfd o ho
    rw [(hfree fd hfd).2] at ho
    cases ho
  refine hb.handOut
    (hb.wf.openStream hp fun fd hfd => ⟨(hfree fd hfd).1, fun q => hdescriptor fd hfd _⟩)
    (Handles.spares_openStream hp fun fd hfd u => hdescriptor fd hfd _)
    ⟨⟨d, some t⟩, by simp, rfl⟩ ((d.map DirectoryKey.descriptor).toList ++ [streamKey π p])
    ?_ ?_ hwin (fun k => live_openStream hp)
    Handles.openStream_lost ?_ ?_ ?_
  · cases d <;> simp [streamKey]
  · intro k hk
    simp only [List.mem_append, Option.mem_toList, Option.map_eq_some_iff, List.mem_singleton] at hk
    rcases hk with ⟨fd, hfd, rfl⟩ | rfl
    · exact not_live_of_free π (hfree fd hfd)
    · exact not_live_of_none hp
  · rw [hph]
    rfl
  · cases d <;> simp [DirectoryPhase.opening, Handles.keys, streamKey]
  · rw [hph]
    rfl

/-- fdopendir hands out the stream only; the descriptor is live already. -/
theorem Books.adopted (hb : Books π h marks phases) {p fd : Word} (hph : phases t = .fdopendir)
    (hp : h.streams p = none) (hfd : h.Loose fd)
    (hwin : ∀ u, streamKey π p ∉ (phases u).closing π) :
    Books π (h.openStream t p (some fd)) marks (Function.update phases t (.adopted p)) := by
  have hdescriptor : ∀ fd' ∈ some fd, ∀ o, o ≠ .caller none → h.descriptors fd' ≠ some o := by
    rintro fd' ⟨⟩ o hne ho
    rw [hfd.2] at ho
    exact hne (Option.some.inj ho).symm
  refine hb.handOut
    (hb.wf.openStream hp fun fd' h' => ⟨?_, fun q => hdescriptor fd' h' _ (by simp)⟩)
    (Handles.spares_openStream hp fun fd' h' u => hdescriptor fd' h' _ (by simp))
    ⟨⟨some fd, some t⟩, by simp, rfl⟩ [streamKey π p] (by simp) ?_ ?_ (fun k => ?_)
    Handles.openStream_lost ?_ rfl ?_
  · cases h'
    exact hfd.1
  · intro k hk
    rw [List.mem_singleton.mp hk]
    exact not_live_of_none hp
  · intro k hk
    rw [List.mem_singleton.mp hk]
    exact hwin
  · rw [live_openStream hp]
    have hlive : h.Live π (.descriptor fd) := by simp [Handles.Live, hfd.2]
    constructor
    · rintro (hl | hk)
      · exact .inl hl
      · simp only [Option.map_some, Option.toList_some, List.singleton_append, List.mem_cons,
          List.not_mem_nil, or_false] at hk
        rcases hk with rfl | rfl
        · exact .inl hlive
        · exact .inr (by simp)
    · rintro (hl | hk)
      · exact .inl hl
      · exact .inr (List.mem_append_right _ hk)
  · rw [hph]
    rfl
  · rw [hph]
    rfl

/-- mkstemp hands out a descriptor. -/
theorem Books.made (hb : Books π h marks phases) {fd : Word} (hph : phases t = .mkstemp)
    (hfree : h.Free fd) (hwin : ∀ u, .descriptor fd ∉ (phases u).closing π) :
    Books π (h.assign fd (some (.caller (some t)))) marks (Function.update phases t (.made fd)) := by
  have hdescriptor : ∀ o, h.descriptors fd ≠ some o := by
    intro o ho
    rw [hfree.2] at ho
    cases ho
  refine hb.handOut (hb.wf.assign fun q => hdescriptor _)
    (Handles.spares_assign fun u => hdescriptor _) ?_ [.descriptor fd] (by simp) ?_ ?_
    (fun k => live_assign k) rfl ?_ rfl ?_
  · simp [DirectoryPhase.Holds]
  · intro k hk
    rw [List.mem_singleton.mp hk]
    exact not_live_of_free π hfree
  · intro k hk
    rw [List.mem_singleton.mp hk]
    exact hwin
  · rw [hph]
    rfl
  · rw [hph]
    rfl

/-- The effect of a native call. -/
theorem Books.answered (hb : Books π h marks phases) {f : Api} {args : List Word} {v : Word}
    (hok : h.MayAnswer ν (.native f args) v)
    (hadv : DirectoryStep π (phases t) (.native f args) v ph')
    (hwin : ∀ k ∈ h.handsOut π ν (.event 0 ⟨.native f args, [], v, quietLocal, quietLocal⟩),
      ∀ u, k ∉ (phases u).closing π) :
    Books π (h.answered π ν t (.native f args) v) marks (Function.update phases t ph') := by
  generalize hph : phases t = ph at hadv
  have hholds := hb.holds t
  rw [hph] at hholds
  have still : ∀ {ph₁ : DirectoryPhase}, ph₁.Holds h t → ph₁.opening π h = ph.opening π h →
      ph₁.closing π = ph.closing π → Books π h marks (Function.update phases t ph₁) :=
    fun hh ho hc => hb.still hb.wf .refl hh (fun _ => Iff.rfl) rfl (hph ▸ ho) (hph ▸ hc)
  cases hadv with
  | inert hn => cases hn
  | other hf =>
    have heq : h.answered π ν t (.native f args) v = h := by
      unfold Handles.answered
      split <;> first
        | rfl
        | next heq =>
          cases heq
          simp [Api.handles] at hf
    rw [heq]
    exact still trivial rfl rfl
  | openFailed =>
    simp only [Handles.answered, if_true]
    exact still trivial rfl rfl
  | «open» hp =>
    obtain ⟨hnone, hfree⟩ := hok hp
    simp only [Handles.answered, if_neg hp]
    refine hb.opened hph hnone hfree fun k hk => hwin k ?_
    simpa [Handles.handsOut, hp, streamKey] using hk
  | @ask p _ hnn =>
    obtain ⟨s, hp, hs⟩ := hholds
    have htells : s.Tells v := hok s hp
    have hkeys := keys_of_tells π hb.wf hp htells
    rw [if_pos hnn] at hkeys
    refine still ?_ hkeys.symm rfl
    obtain ⟨d, u⟩ := s
    cases d with
    | none => exact absurd htells (Int.not_lt.mpr hnn)
    | some d =>
      have hd : v = d := htells
      have hu : u = some t := hs
      rw [DirectoryPhase.Holds, hp, hd, hu]
  | @askFailed p _ hneg =>
    obtain ⟨s, hp, hs⟩ := hholds
    have hkeys := keys_of_tells π hb.wf hp (hok s hp)
    rw [if_neg (Int.not_le.mpr hneg)] at hkeys
    exact still ⟨s, hp, hs⟩ hkeys.symm rfl
  | adoptFailed =>
    simp only [Handles.answered, if_true]
    exact still trivial rfl rfl
  | @adopt fd p hp =>
    obtain ⟨hnone, hfd⟩ := hok hp
    simp only [Handles.answered, if_neg hp]
    refine hb.adopted hph hnone hfd (hwin _ ?_)
    simp [Handles.handsOut, hp, streamKey]
  | makeFailed =>
    simp only [Handles.answered, if_true]
    exact still trivial rfl rfl
  | make hne =>
    simp only [Handles.answered, if_neg hne]
    refine hb.made hph (hok hne) (hwin _ ?_)
    simp [Handles.handsOut, hne]
  | inquire =>
    obtain ⟨s, hp, hs⟩ := hholds
    exact still ⟨s, hp, hs, hok s hp⟩ rfl rfl
  | @closeFailed p fd =>
    by_cases hfinal : ν.final
    · simp only [Handles.answered, ne_eq, not_true_eq_false, if_false, hfinal, if_true]
      exact hb.lose hph
    · simp only [Handles.answered, ne_eq, not_true_eq_false, if_false, hfinal]
      exact still trivial rfl rfl
  | @close p fd v hne hnn =>
    simp only [Handles.answered, ne_eq, hne, not_false_eq_true, if_true]
    exact hb.close hph trivial rfl (by simp [DirectoryPhase.closing, hnn])
  | @closeUnknown p fd v hne hneg =>
    simp only [Handles.answered, ne_eq, hne, not_false_eq_true, if_true]
    exact hb.close hph trivial rfl (by simp [DirectoryPhase.closing, Int.not_le.mpr hneg])

/-- The effect of a record. -/
theorem Books.noted (hb : Books π h marks phases) {r : Record} {v : Word}
    (hadv : DirectoryStep π (phases t) (.record r) v ph') :
    Books π h (marked marks r.directory) (Function.update phases t ph') := by
  generalize hph : phases t = ph at hadv
  have hholds := hb.holds t
  rw [hph] at hholds
  cases hadv with
  | inert _ hd =>
    have hd' : r.directory = none := hd
    rw [hd']
    exact hb.still hb.wf .refl hholds (fun _ => Iff.rfl) rfl (by rw [hph]) (by rw [hph])
  | noteDescriptor =>
    refine hb.recorded ?_ (by rw [hph]; rfl) (by rw [hph]; rfl)
    exact ⟨_, hholds, rfl⟩
  | noteStream | noteAdopted | noteMade =>
    refine hb.recorded ?_ (by rw [hph]; rfl) (by rw [hph]; rfl)
    trivial
  | noteClosed | noteReleased =>
    refine hb.unrecorded ?_ (by rw [hph]; rfl) (by rw [hph]; rfl)
    trivial

/-- Another library's open and close record what they do at once. -/
theorem Books.acted (hb : Books π h marks phases) {x : Foreign} (hok : h.Admits ν (.act x))
    (hph : phases t = .idle)
    (hwin : ∀ k ∈ h.handsOut π ν (.act x), ∀ u, k ∉ (phases u).closing π) :
    Books π (h.happened π ν (t, .act x)) (marked marks x.directory)
      (Function.update phases t .idle) := by
  have hopening : (directoryAccount π h phases).opening t = [] := by
    simp [directoryAccount, hph, DirectoryPhase.opening]
  have hclosing : (directoryAccount π h phases).closing t = [] := by
    simp [directoryAccount, hph, DirectoryPhase.closing]
  have still : ∀ f : Nat → List DirectoryKey, f t = [] → Function.update f t [] = f := by
    intro f hf
    rw [← hf]
    exact Function.update_eq_self t f
  cases x with
  | «open» fd =>
    have hfree : h.Free fd := hok
    have hopen := hb.agrees.open t [.descriptor fd] hopening
      (fun k hk => ⟨List.mem_singleton.mp hk ▸ not_live_of_free π hfree, hwin k hk⟩)
      (by simp)
    have htake := hopen.take t (.descriptor fd) [] (by simp [Account.open])
    refine hb.moved (hb.wf.assign fun q => by simp [hfree.2])
      (Handles.spares_assign fun u => by simp [hfree.2]) trivial
      (htake.congr (fun k => live_assign k) (Function.update_idem ..).symm (still _ hclosing)
        fun k => rfl)
  | close fd =>
    have hloose : h.Loose fd := hok
    have hlive : h.Live π (.descriptor fd) := by simp [Handles.Live, hloose.2]
    have hunused : ∀ u, DirectoryKey.descriptor fd ∉ (phases u).opening π h := by
      intro u hu
      have hused := (hb.holds u).usedBy hb.wf hu
      simp [Handles.UsedBy, hloose.2] at hused
    have hclose := hb.agrees.close t [.descriptor fd] hclosing
      (fun k hk => List.mem_singleton.mp hk ▸ ⟨hlive, hunused⟩) (by simp)
    have hgive := hclose.give t (.descriptor fd) [] (by simp [Account.close])
    refine hb.moved (hb.wf.assign fun q => by simp [hloose.2])
      (Handles.spares_assign fun u => by simp [hloose.2]) trivial
      (hgive.congr (fun k => live_drop k) (still _ hopening) (Function.update_idem ..).symm
        fun k => rfl)
  | free p => exact hb.still hb.wf .refl trivial (fun _ => Iff.rfl) rfl hopening.symm hclosing.symm

/-- One step of any thread, when nothing is handed out that some thread has closed and not
recorded. -/
theorem Books.step {i : Item} (hb : Books π h marks phases) (hok : h.Admits ν i)
    (hadv : (directoryTypestate π).Advance (phases t) i ph')
    (hwin : ∀ k ∈ h.handsOut π ν i, ∀ u, k ∉ (phases u).closing π) :
    Books π (h.happened π ν (t, i))
      (marked marks (Item.mark Record.directory Foreign.directory (t, i)))
      (Function.update phases t ph') := by
  generalize hph : phases t = ph at hadv
  cases hadv with
  | call => exact hb.called hok hph
  | @event _ _ id e hstep =>
    obtain ⟨o, heard, v, before, after⟩ := e
    cases o with
    | native f args =>
      rw [← hph] at hstep
      exact hb.answered hok hstep hwin
    | record r =>
      rw [← hph] at hstep
      exact hb.noted hstep
    | _ =>
      have hsame : ph' = ph := by cases hstep <;> rfl
      rw [hsame, ← hph]
      exact hb.still hb.wf .refl (hb.holds t) (fun _ => Iff.rfl) rfl rfl rfl
  | exit hfinal =>
    refine hb.still hb.wf.leave Handles.spares_leave trivial live_leave rfl ?_ ?_
    · rw [hph]
      cases ph <;> first | rfl | exact hfinal.elim
    · rw [hph]
      cases ph <;> first | rfl | exact hfinal.elim
  | act => exact hb.acted hok hph hwin
  | invoke | returned | hand =>
    rw [← hph]
    exact hb.still hb.wf .refl (hb.holds t) (fun _ => Iff.rfl) rfl rfl rfl

end

/-! ## Runs -/

section
variable {ok : List (Nat × Item) → Nat → Item → Prop} {log : List (Nat × Item)}
  {phases : Nat → DirectoryPhase}

theorem books_of_traced (hok : ∀ {log t i}, ok log t i → (Handles.after π ν log).Admits ν i)
    (hwin : ∀ {log phases t i ph'}, (directoryTypestate π).Traced ok log phases →
      Books π (Handles.after π ν log) (directoryMarks log) phases → ok log t i →
      (directoryTypestate π).Advance (phases t) i ph' →
      ∀ k ∈ (Handles.after π ν log).handsOut π ν i, ∀ u, k ∉ (phases u).closing π)
    (h : (directoryTypestate π).Traced ok log phases) :
    Books π (Handles.after π ν log) (directoryMarks log) phases := by
  induction h with
  | nil => exact books_start
  | @snoc log phases t i ph' htr ho hadv ih =>
    have hmarks : directoryMarks (log ++ [(t, i)]) = marked (directoryMarks log)
        (Item.mark Record.directory Foreign.directory (t, i)) := marks_snoc _ log (t, i)
    rw [hmarks, Handles.after_snoc]
    exact (ih.step (hok ho) hadv (hwin htr ih ho hadv)).tick

/-- A thread that something is handed out to has nothing closed left to record. -/
theorem closing_of_handsOut {h : Handles} {i : Item} {ph ph' : DirectoryPhase} {k : DirectoryKey}
    (hadv : (directoryTypestate π).Advance ph i ph') (hk : k ∈ h.handsOut π ν i) :
    ph.closing π = [] := by
  cases hadv with
  | event hstep =>
    rename_i e
    obtain ⟨o, heard, v, before, after⟩ := e
    cases ph with
    | closed | unnoted =>
      cases hstep with
      | inert hp => cases o <;> first | cases hk | cases hp
      | _ => cases hk
    | _ => rfl
  | act => rfl
  | _ => cases hk

/-- In a run of thread 0 alone nothing is handed out between a change and its record. -/
theorem window_of_single {t : Nat} {i : Item} {ph' : DirectoryPhase}
    (hok : ∀ {log t i}, ok log t i → t = 0) (htr : (directoryTypestate π).Traced ok log phases)
    (ho : ok log t i) (hadv : (directoryTypestate π).Advance (phases t) i ph') {h : Handles} :
    ∀ k ∈ h.handsOut π ν i, ∀ u, k ∉ (phases u).closing π := by
  intro k hk u hku
  by_cases hu : u = 0
  · rw [hu, ← hok ho, closing_of_handsOut hadv hk] at hku
    cases hku
  · have hidle : phases u = .idle := htr.idle fun hl ht => hu (ht.symm.trans (hok hl))
    rw [hidle] at hku
    cases hku

theorem books_of_single (ok : List (Nat × Item) → Nat → Item → Prop)
    (hok : ∀ {log t i}, ok log t i → t = 0 ∧ (Handles.after π ν log).Admits ν i)
    (h : (directoryTypestate π).Traced ok log phases) :
    Books π (Handles.after π ν log) (directoryMarks log) phases :=
  books_of_traced (fun ho => (hok ho).2)
    (fun htr _ ho hadv => window_of_single (fun hl => (hok hl).1) htr ho hadv) h

/-- What is about to be recorded as opened is not owed yet. -/
theorem Books.notDue_of_take {h : Handles} {marks : DirectoryKey → List Bool} {t : Nat} {i : Item}
    {ph' : DirectoryPhase} {k : DirectoryKey} (hb : Books π h marks phases) (hok : h.Admits ν i)
    (hadv : (directoryTypestate π).Advance (phases t) i ph')
    (hwin : ∀ k ∈ h.handsOut π ν i, ∀ u, k ∉ (phases u).closing π)
    (hk : Item.mark Record.directory Foreign.directory (t, i) = some (k, true)) :
    ¬ (directoryAccount π h phases).Due k := by
  have ofOpening : k ∈ (phases t).opening π h → ¬ (directoryAccount π h phases).Due k := by
    rintro ho (⟨-, hn⟩ | ⟨u, hc⟩)
    · exact hn t ho
    · exact hb.agrees.closes u k hc (hb.agrees.opens t k ho)
  generalize hph : phases t = ph at hadv
  cases hadv with
  | event hstep =>
    rename_i e
    obtain ⟨o, heard, v, before, after⟩ := e
    refine ofOpening ?_
    rw [hph]
    cases hstep with
    | inert _ hd =>
      cases o with
      | record r => exact absurd (hd.symm.trans hk) (by simp)
      | _ => cases hk
    | noteDescriptor | noteStream | noteAdopted | noteMade =>
      cases hk
      simp [DirectoryPhase.opening, streamKey]
    | noteClosed | noteReleased => cases hk
    | _ => cases hk
  | @act x =>
    cases x with
    | «open» fd =>
      cases hk
      rintro (⟨hl, -⟩ | ⟨u, hc⟩)
      · exact not_live_of_free π hok hl
      · exact hwin _ (by simp [Handles.handsOut]) u hc
    | close | free => cases hk
  | _ => cases hk

end

end P101Filesystem
