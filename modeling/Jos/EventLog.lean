import Jos.BackScan
import Jos.WhileLoop
import Mathlib.Data.List.Induction

/- Computations that keep a log of what they do and may stop on the way, and logs every event of
   which is justified by the events before it. -/
namespace EventLog
variable {ε α β : Type}

structure Logged (ε α : Type) where
  log : List ε
  /-- none where the computation has stopped -/
  result : Option α

namespace Logged

def event (e : ε) (result : Option α) : Logged ε α := ⟨[e], result⟩

def stop : Logged ε α := ⟨[], none⟩

instance : Monad (Logged ε) where
  pure a := ⟨[], some a⟩
  bind x f :=
    match x.result with
    | none => ⟨x.log, none⟩
    | some a => ⟨x.log ++ (f a).log, (f a).result⟩

section Bind
variable {x : Logged ε α} {f : α → Logged ε β} {a : α}

theorem bind_some (goes_on : x.result = some a) :
    x >>= f = ⟨x.log ++ (f a).log, (f a).result⟩ := by
  change (match x.result with
    | none => (⟨x.log, none⟩ : Logged ε β)
    | some a => ⟨x.log ++ (f a).log, (f a).result⟩) = _
  rw [goes_on]

theorem bind_none (stops : x.result = none) : x >>= f = ⟨x.log, none⟩ := by
  change (match x.result with
    | none => (⟨x.log, none⟩ : Logged ε β)
    | some a => ⟨x.log ++ (f a).log, (f a).result⟩) = _
  rw [stops]

theorem event_some (e : ε) : event e (some a) >>= f = ⟨e :: (f a).log, (f a).result⟩ := rfl

theorem stop_bind : (stop : Logged ε α) >>= f = stop := rfl

theorem event_none (e : ε) : (event e none : Logged ε α) >>= f = ⟨[e], none⟩ := rfl

theorem log_bind (x : Logged ε α) (f : α → Logged ε β) : x.log <+: (x >>= f).log := by
  cases next : x.result with
  | none =>
    refine ⟨[], ?_⟩
    rw [bind_none next, List.append_nil]
  | some a =>
    rw [bind_some next]
    exact List.prefix_append x.log (f a).log

end Bind

instance : LawfulMonad (Logged ε) := LawfulMonad.mk' (Logged ε)
  (fun x => by
    cases x with
    | mk log result =>
      cases result with
      | none => rfl
      | some a => exact congrArg (fun l => Logged.mk l (some a)) (List.append_nil log))
  (fun a f => rfl)
  (fun x f g => by
    cases next : x.result with
    | none =>
      rw [bind_none next, bind_none next]
      rfl
    | some a =>
      rw [bind_some next, bind_some next]
      cases last : (f a).result with
      | none =>
        rw [bind_none last]
        exact bind_none rfl
      | some b =>
        rw [bind_some last, bind_some (show (Logged.mk _ (some b)).result = some b from rfl)]
        exact congrArg (fun l => Logged.mk l (g b).result) (List.append_assoc _ _ _))

end Logged

section Justified
variable {ok : List ε → ε → Prop} {log log' : List ε} {e : ε}

/-- Every event is justified by those before it. -/
def Justified (ok : List ε → ε → Prop) (log : List ε) : Prop :=
  ∀ before e after, log = before ++ e :: after → ok before e

theorem justified_nil : Justified ok [] := by
  intro before e after split
  simp at split

theorem justified_concat : Justified ok (log ++ [e]) ↔ Justified ok log ∧ ok log e := by
  constructor
  · intro justified
    refine ⟨?_, justified log e [] rfl⟩
    intro before x after split
    refine justified before x (after ++ [e]) ?_
    rw [split]
    simp
  · rintro ⟨justified, last⟩ before x after split
    induction after using List.reverseRecOn with
    | nil =>
      obtain ⟨rfl, rest⟩ := List.append_inj' split rfl
      cases rest
      exact last
    | append_singleton after y _ =>
      rw [← List.cons_append, ← List.append_assoc] at split
      obtain ⟨front, _⟩ := List.append_inj' split rfl
      exact justified before x after front

theorem justified_part (longer : Justified ok log') (part : log <+: log') : Justified ok log := by
  obtain ⟨rest, rfl⟩ := part
  intro before e after split
  refine longer before e (after ++ rest) ?_
  rw [split]
  simp

theorem justified_append {more : List ε} (justified : Justified ok log)
    (each : ∀ e ∈ more, ∀ between, ok (log ++ between) e) : Justified ok (log ++ more) := by
  induction more using List.reverseRecOn with
  | nil => simpa using justified
  | append_singleton more e ih =>
    rw [← List.append_assoc, justified_concat]
    refine ⟨ih fun x member => each x (by simp [member]), ?_⟩
    exact each e (by simp) more

end Justified

section Only
variable {P : ε → Prop} {x : Logged ε α} {f : α → Logged ε β}

def Only (P : ε → Prop) (x : Logged ε α) : Prop := ∀ e ∈ x.log, P e

theorem only_bind (first : Only P x) (rest : ∀ a, x.result = some a → Only P (f a)) :
    Only P (x >>= f) := by
  cases next : x.result with
  | none =>
    rw [Logged.bind_none next]
    exact first
  | some a =>
    rw [Logged.bind_some next]
    intro e member
    rcases List.mem_append.mp member with before | after
    · exact first e before
    · exact rest a next e after

theorem result_bind {b : β} (run : (x >>= f).result = some b) :
    ∃ a, x.result = some a ∧ (f a).result = some b := by
  cases next : x.result with
  | none =>
    rw [Logged.bind_none next] at run
    cases run
  | some a =>
    rw [Logged.bind_some next] at run
    exact ⟨a, rfl, run⟩

theorem only_loop {σ : Type} {round : σ → Logged ε (Option σ)} {s : σ} (fuel : Nat)
    (I : σ → Prop) (start : I s) (events : ∀ a, I a → Only P (round a))
    (keeps : ∀ a b, I a → (round a).result = some (some b) → I b) :
    Only P (WhileLoop.loop round fuel s) ∧
      ∀ t, (WhileLoop.loop round fuel s).result = some (some t) →
        I t ∧ (round t).result = some none := by
  induction fuel generalizing s with
  | zero =>
    constructor
    · intro e member
      cases member
    · intro t run
      cases run
  | succ fuel ih =>
    unfold WhileLoop.loop
    constructor
    · refine only_bind (events s start) ?_
      intro next here
      cases next with
      | none => exact fun e member => by cases member
      | some s' => exact (ih (keeps s s' start here)).1
    · intro t run
      obtain ⟨next, here, rest⟩ := result_bind run
      cases next with
      | none =>
        cases rest
        exact ⟨start, here⟩
      | some s' => exact (ih (keeps s s' start here)).2 t rest

theorem only_back {stop : Int → Logged ε Bool} (n : Nat) (i : Int)
    (events : ∀ j, i - n < j → j ≤ i → Only P (stop j)) : Only P (BackScan.back stop n i) := by
  induction n generalizing i with
  | zero =>
    intro e member
    cases member
  | succ n ih =>
    unfold BackScan.back
    refine only_bind (events i (by omega) (Int.le_refl i)) ?_
    intro here _
    split
    · intro e member
      cases member
    · exact ih (i - 1) fun j low high => events j (by omega) (by omega)

end Only

section Plain
variable {x : Logged ε α} {f : α → Logged ε β} {a : α}

theorem bind_result (run : x.result = some a) : (x >>= f).result = (f a).result := by
  rw [Logged.bind_some run]

/-- A scan that always learns whether to stop ends where the scan without a log ends. -/
theorem back_result {stop : Int → Logged ε Bool} {plain : Int → Bool}
    (same : ∀ i, (stop i).result = some (plain i)) (n : Nat) (i : Int) :
    (BackScan.back stop n i).result = some (BackScan.back (m := Id) plain n i) := by
  induction n generalizing i with
  | zero => rfl
  | succ n ih =>
    have here := same i
    conv => lhs; unfold BackScan.back
    rw [bind_result here]
    cases ends : plain i with
    | true =>
      rw [BackScan.back_here n ends]
      rfl
    | false =>
      rw [BackScan.back_next n ends]
      exact ih (i - 1)

theorem loop_result {σ : Type} {round : σ → Logged ε (Option σ)} {plain : σ → Option σ}
    (same : ∀ s, (round s).result = some (plain s)) (fuel : Nat) (s : σ) :
    (WhileLoop.loop round fuel s).result = some (WhileLoop.loop (m := Id) plain fuel s) := by
  induction fuel generalizing s with
  | zero => rfl
  | succ fuel ih =>
    have here := same s
    conv => lhs; unfold WhileLoop.loop
    rw [bind_result here]
    cases next : plain s with
    | none =>
      rw [WhileLoop.loop_done (m := Id) next]
      rfl
    | some s' =>
      rw [WhileLoop.loop_next (m := Id) next]
      exact ih s'

end Plain

section Follows
variable {δ : Type} {P : δ → Prop} {x : Logged ε α} {y : Logged δ α} {f : α → Logged ε β} {g : α → Logged δ β}

/-- x comes to the result of y, as far as the events of y are of the kind. -/
def Follows (P : δ → Prop) (x : Logged ε α) (y : Logged δ α) : Prop :=
  Only P y → ∀ a, y.result = some a → x.result = some a

theorem follows_pure (a : α) : Follows P (pure a : Logged ε α) (pure a : Logged δ α) :=
  fun _ _ run => run

theorem follows_event {e : ε} {d : δ} {a : α} {result : Option α} (same : P d → result = some a) :
    Follows P (Logged.event e result) (Logged.event d (some a)) := by
  intro events b run
  cases run
  exact same (events d List.mem_cons_self)

theorem follows_bind (first : Follows P x y) (rest : ∀ a, Follows P (f a) (g a)) :
    Follows P (x >>= f) (y >>= g) := by
  intro events b run
  obtain ⟨a, here, later⟩ := result_bind run
  rw [Logged.bind_some here] at events
  have before : Only P y := fun e member => events e (List.mem_append_left _ member)
  have after : Only P (g a) := fun e member => events e (List.mem_append_right _ member)
  rw [bind_result (first before a here)]
  exact rest a after b later

theorem follows_back {stop : Int → Logged ε Bool} {plain : Int → Logged δ Bool}
    (same : ∀ i, Follows P (stop i) (plain i)) (n : Nat) (i : Int) :
    Follows P (BackScan.back stop n i) (BackScan.back plain n i) := by
  induction n generalizing i with
  | zero => exact follows_pure i
  | succ n ih =>
    unfold BackScan.back
    refine follows_bind (same i) ?_
    intro here
    cases here with
    | true => exact follows_pure i
    | false => exact ih (i - 1)

theorem follows_loop {σ : Type} {round : σ → Logged ε (Option σ)} {plain : σ → Logged δ (Option σ)}
    (same : ∀ s, Follows P (round s) (plain s)) (fuel : Nat) (s : σ) :
    Follows P (WhileLoop.loop round fuel s) (WhileLoop.loop plain fuel s) := by
  induction fuel generalizing s with
  | zero => exact follows_pure none
  | succ fuel ih =>
    unfold WhileLoop.loop
    refine follows_bind (same s) ?_
    intro next
    cases next with
    | none => exact follows_pure (some s)
    | some s' => exact ih s'

end Follows

end EventLog
