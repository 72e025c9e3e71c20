import P101Filesystem.Walk.Code

/-!
# Nested walks

Between two moves of the outside parties the stack of a walking thread alternates native
walks and callbacks. `Nest` says so, and where the context of each open walk is and what it
holds: its callback, whether a callback has stopped it, and the walk of its kind around it.
-/
namespace P101Filesystem

open Effect

/-- The arguments of a walk; `flags` is unused by ftw. -/
structure WalkCall where
  kind : Kind
  path : Word
  fn : Word
  limit : Word
  flags : Word
  deriving DecidableEq, Repr

namespace WalkCall

def args (w : WalkCall) : List Word :=
  match w.kind with
  | .ftw => [w.path, w.limit]
  | .nftw => [w.path, w.limit, w.flags]

def call (w : WalkCall) : Call :=
  match w.kind with
  | .ftw => .ftw w.path w.fn w.limit
  | .nftw => .nftw w.path w.fn w.limit w.flags

def Rejected (w : WalkCall) : Prop := w.path = NULL ∨ w.fn = NULL ∨ w.limit < 1

instance (w : WalkCall) : Decidable w.Rejected := inferInstanceAs (Decidable (_ ∨ _ ∨ _))

theorem call_code (w : WalkCall) (π : Platform) (base : Word) :
    w.call.code π base = P101Filesystem.walk π w.kind w.path w.fn w.limit w.args base := by
  obtain ⟨kind, path, fn, limit, flags⟩ := w
  cases kind <;> rfl

@[simp] theorem call_walk (w : WalkCall) : w.call.walk = some (w.kind, w.fn) := by
  obtain ⟨kind, path, fn, limit, flags⟩ := w
  cases kind <;> rfl

/-- No native call starts a walk. -/
theorem native_permits (w : WalkCall) (f : Api) (args : List Word) :
    (Party.native f args).permits w.call = false := by
  obtain ⟨kind, path, fn, limit, flags⟩ := w
  cases kind <;> cases f <;> rfl

end WalkCall

/-- Every walk call is one of these. -/
theorem Call.exists_walkCall {c : Call} {k : Kind} {fn : Word} (h : c.walk = some (k, fn)) :
    ∃ w : WalkCall, w.call = c ∧ w.kind = k ∧ w.fn = fn := by
  cases c with
  | ftw path fn' ndirs =>
    simp only [Call.walk, Option.some.injEq, Prod.mk.injEq] at h
    exact ⟨⟨.ftw, path, fn', ndirs, 0⟩, rfl, h.1, h.2⟩
  | nftw path fn' fdLimit flags =>
    simp only [Call.walk, Option.some.injEq, Prod.mk.injEq] at h
    exact ⟨⟨.nftw, path, fn', fdLimit, flags⟩, rfl, h.1, h.2⟩
  | _ => cases h

/-- What a native walk passes on about an entry; `walk` is the FTW record of nftw. -/
structure Visit where
  path : Word
  status : Word
  type : Word
  walk : Word
  deriving DecidableEq, Repr

def Visit.args (v : Visit) : Kind → List Word
  | .ftw => [v.path, v.status, v.type]
  | .nftw => [v.path, v.status, v.type, v.walk]

def Visit.call (v : Visit) : Kind → Call
  | .ftw => .callFtwCallback v.path v.status v.type
  | .nftw => .callNftwCallback v.path v.status v.type v.walk

theorem Visit.call_code (v : Visit) (k : Kind) (π : Platform) (base : Word) :
    (v.call k).code π base = trampoline k (v.args k) := by
  cases k <;> rfl

@[simp] theorem Visit.call_walk (v : Visit) (k : Kind) : (v.call k).walk = none := by
  cases k <;> rfl

theorem Visit.native_permits (v : Visit) (k : Kind) (args : List Word) :
    (Party.native k.api args).permits (v.call k) = true := by
  cases k <;> rfl

/-- An open walk, or a callback it is waiting for. -/
inductive Level where
  | walk (w : WalkCall)
  | callback (fn : Word) (args : List Word)
  deriving DecidableEq, Repr

/-- The frame addresses on a stack. -/
def bases : List Frame → List Word
  | [] => []
  | .outside _ _ _ :: below => bases below
  | .code _ act _ :: below => act.base :: bases below

/-- What the native calls on a stack have heard so far, innermost first. -/
def nativeHeard : List Frame → List (List Word)
  | [] => []
  | .outside (.native _ _) heard _ :: below => heard :: nativeHeard below
  | _ :: below => nativeHeard below

theorem nativeHeard_of_permits {g : Party} {heard : List Word} {since : Local} {below : List Frame}
    {w : WalkCall} (hp : g.permits w.call = true) :
    nativeHeard (.outside g heard since :: below) = nativeHeard below := by
  cases g with
  | main | user => rfl
  | native f args =>
    rw [w.native_permits] at hp
    cases hp

theorem nativeHeard_of_party {th : Thread} {f : Api} {args : List Word}
    (h : th.party = some (.native f args)) :
    ∃ rest, nativeHeard th.stack = th.heard :: rest := by
  unfold Thread.party at h
  split at h
  · next hs =>
    obtain rfl := Option.some.inj h
    exact ⟨_, by rw [Thread.heard, hs, nativeHeard]⟩
  · cases h

/-- Who is in control at the innermost level. -/
def partyOf : List Level → Party
  | [] => .main
  | .walk w :: _ => .native w.kind.api w.args
  | .callback fn args :: _ => .user fn args

/-- The stack of a thread that has halted: its pointers, the addresses of its contexts and
its levels, innermost first. -/
inductive Nest (π : Platform) (s : Shared) :
    List Frame → (Kind → Word) → List Word → List Level → Prop
  | main {heard since} : Nest π s [.outside .main heard since] (fun _ => NULL) [] []
  | walk {w g heard₀ since₀ below active active' bs levels id act heard since stopped} :
      Nest π s (.outside g heard₀ since₀ :: below) active bs levels →
      active' = Function.update active w.kind act.base → g.permits w.call = true →
      act.entry = w.call → ¬ w.Rejected →
      Stretch act.past [(w.kind.api, 0)] [] → act.base ∉ bs →
      s.cells act.base = some ⟨w.kind, w.fn, stopped, active w.kind⟩ →
      (stopped = 0 ↔ ∀ r ∈ heard, r = 0) →
      Nest π s (.outside (.native w.kind.api w.args) heard since ::
        .code id act (.perform (.native w.kind.api w.args) (walkTail π w.kind act.base)) ::
        .outside g heard₀ since₀ :: below)
        active' (act.base :: bs) (.walk w :: levels)
  | callback {w v g heard₀ since₀ below active bs levels id act heard since} :
      Nest π s (.outside g heard₀ since₀ :: below) active bs (.walk w :: levels) →
      act.entry = Visit.call v w.kind →
      Nest π s (.outside (.user w.fn (v.args w.kind)) heard since ::
        .code id act (.perform (.callback w.fn (v.args w.kind))
          (trampolineTail w.kind (active w.kind))) ::
        .outside g heard₀ since₀ :: below) active bs
        (.callback w.fn (v.args w.kind) :: .walk w :: levels)

namespace Nest

variable {π : Platform} {s s' : Shared} {stack below : List Frame} {active : Kind → Word}
  {bs : List Word} {levels : List Level} {g : Party} {heard : List Word} {since : Local}
  {w : WalkCall}

/-- Only the contexts of its own walks matter to a stack. -/
theorem frame (h : Nest π s stack active bs levels) (hs : ∀ p ∈ bs, s'.cells p = s.cells p) :
    Nest π s' stack active bs levels := by
  induction h with
  | main => exact .main
  | walk _ ha hp he hr hst hb hc hstop ih =>
    have hbelow := ih fun p hm => hs p (List.mem_cons_of_mem _ hm)
    refine .walk hbelow ha hp he hr hst hb ?_ hstop
    rw [hs _ (by simp), hc]
  | callback _ he ih => exact .callback (ih hs) he

theorem inScope (h : Nest π s stack active bs levels) {p : Word} (hm : p ∈ bs) :
    s.cells p ≠ none := by
  induction h with
  | main => cases hm
  | walk _ _ _ _ _ _ _ hc _ ih =>
    rcases List.mem_cons.mp hm with rfl | hm
    · rw [hc]
      simp
    · exact ih hm
  | callback _ _ ih => exact ih hm

/-- A party that may start walks can have heard anything. -/
theorem hear (h : Nest π s (.outside g heard since :: below) active bs levels)
    (hp : g.permits w.call = true) (heard' : List Word) (since' : Local) :
    Nest π s (.outside g heard' since' :: below) active bs levels := by
  cases h with
  | main => exact .main
  | walk =>
    rw [w.native_permits] at hp
    cases hp
  | callback hn he => exact .callback hn he

/-- Main and the callbacks may start walks. -/
theorem permits_main (w : WalkCall) : Party.main.permits w.call = true := by
  obtain ⟨kind, path, fn, limit, flags⟩ := w
  cases kind <;> rfl

theorem permits_user (w : WalkCall) (fn : Word) (args : List Word) :
    (Party.user fn args).permits w.call = true := by
  obtain ⟨kind, path, fn, limit, flags⟩ := w
  cases kind <;> rfl

theorem head (h : Nest π s stack active bs levels) :
    ∃ heard since below, stack = .outside (partyOf levels) heard since :: below := by
  cases h <;> exact ⟨_, _, _, rfl⟩

theorem subset_bases (h : Nest π s stack active bs levels) : ∀ p ∈ bs, p ∈ bases stack := by
  induction h with
  | main => simp
  | walk _ _ _ _ _ _ _ _ _ ih =>
    intro p hm
    rcases List.mem_cons.mp hm with rfl | hm
    · simp [bases]
    · exact List.mem_cons_of_mem _ (ih p hm)
  | callback _ _ ih => exact fun p hm => List.mem_cons_of_mem _ (ih p hm)

theorem main_alone (h : Nest π s stack active bs []) :
    ∃ heard since, stack = [.outside .main heard since] := by
  cases h
  exact ⟨_, _, rfl⟩

/-- A callback runs for a walk. -/
theorem walk_of_callback {fn : Word} {args : List Word}
    (h : Nest π s stack active bs (.callback fn args :: levels)) :
    ∃ w levels', levels = .walk w :: levels' ∧ fn = w.fn := by
  cases h with
  | callback hn he => exact ⟨_, _, rfl, rfl⟩

end Nest

end P101Filesystem
