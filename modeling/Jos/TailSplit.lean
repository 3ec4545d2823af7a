import Jos.IntrusiveList
import Jos.WhileLoop

/- Splitting a list that is threaded through its own elements into two, in place and in one pass,
   and joining the two again: every element is stored where the tail pointer of its part points,
   and the tail pointer moves on to the link field of the element. -/
namespace TailSplit
open IntrusiveList WhileLoop
variable {α : Type} [DecidableEq α]

/-- A place that holds a pointer to an element: one of the two heads, or a link field. -/
inductive Cell (α : Type) where
  | head (upper : Bool)
  | link (a : α)
  deriving DecidableEq

structure Parts (α : Type) where
  mem : Cell α → Option α
  tail : Bool → Cell α

def Parts.push (w : Parts α) (upper : Bool) (a : α) : Parts α where
  mem := Function.update w.mem (w.tail upper) (some a)
  tail := Function.update w.tail upper (.link a)

/-- One round of the pass, at the element the first component points to. -/
def split (upper : α → Bool) : Option α × Parts α → Option (Option α × Parts α)
  | (none, _) => none
  | (some a, w) =>
    let w := w.push (upper a) a
    some (w.mem (.link a), w)

def Parts.join (w : Parts α) : Cell α → Option α :=
  let mem := Function.update w.mem (w.tail true) none
  Function.update mem (w.tail false) (mem (.head true))

/-- Following the pointers from one cell through xs leads to another. -/
inductive Segment (mem : Cell α → Option α) : Cell α → List α → Cell α → Prop where
  | nil (c : Cell α) : Segment mem c [] c
  | cons {c last : Cell α} {a : α} {xs : List α} (here : mem c = some a)
      (rest : Segment mem (.link a) xs last) : Segment mem c (a :: xs) last

section Segments
variable {mem mem' : Cell α → Option α} {c d last : Cell α} {a : α} {xs ys : List α}

omit [DecidableEq α] in
theorem Segment.append (first : Segment mem c xs d) (second : Segment mem d ys last) :
    Segment mem c (xs ++ ys) last := by
  induction first with
  | nil c => exact second
  | cons here rest ih => exact .cons here (ih second)

omit [DecidableEq α] in
theorem Segment.last_cell (seg : Segment mem c xs last) :
    last = c ∧ xs = [] ∨ ∃ a ∈ xs, last = .link a := by
  induction seg with
  | nil c => exact Or.inl ⟨rfl, rfl⟩
  | @cons c last a xs here rest ih =>
    rcases ih with ⟨same, _⟩ | ⟨b, among, same⟩
    · exact Or.inr ⟨a, by simp, same⟩
    · exact Or.inr ⟨b, by simp [among], same⟩

omit [DecidableEq α] in
theorem Segment.congr (seg : Segment mem c xs last) (once : xs.Nodup) (apart : ∀ b ∈ xs, c ≠ .link b)
    (same : ∀ e, e ≠ last → (e = c ∨ ∃ b ∈ xs, e = .link b) → mem' e = mem e) :
    Segment mem' c xs last := by
  induction seg with
  | nil c => exact .nil c
  | @cons c last a xs here rest ih =>
    obtain ⟨fresh, once⟩ := List.nodup_cons.mp once
    have behind : ∀ b ∈ xs, Cell.link a ≠ .link b := by
      intro b among same
      cases same
      exact fresh among
    refine .cons ?_ (ih once behind ?_)
    · rw [same c ?_ (Or.inl rfl), here]
      intro is_last
      rcases rest.last_cell with ⟨at_a, _⟩ | ⟨b, among, at_b⟩
      · exact apart a (by simp) (is_last.trans at_a)
      · exact apart b (by simp [among]) (is_last.trans at_b)
    · intro e differ on_way
      refine same e differ (Or.inr ?_)
      rcases on_way with rfl | ⟨b, among, rfl⟩
      · exact ⟨a, by simp, rfl⟩
      · exact ⟨b, by simp [among], rfl⟩

omit [DecidableEq α] in
theorem Segment.chain (seg : Segment mem c xs last)
    (goes : Chain (fun a => mem (.link a)) (mem last) ys) :
    Chain (fun a => mem (.link a)) (mem c) (xs ++ ys) := by
  induction seg with
  | nil c => exact goes
  | cons here rest ih =>
    rw [here]
    exact .cons _ _ (ih goes)

end Segments

/-- In the middle of the pass: what each part holds, and what is still to come. -/
structure Halfway (w : Parts α) (p : Option α) (parts : Bool → List α) (rest : List α) : Prop where
  seg : ∀ b, Segment w.mem (.head b) (parts b) (w.tail b)
  chain : Chain (fun a => w.mem (.link a)) p rest
  once : ∀ b, (parts b).Nodup
  rest_once : rest.Nodup
  apart : ∀ b, ∀ a ∈ parts b, a ∉ parts !b
  fresh : ∀ b, ∀ a ∈ parts b, a ∉ rest

section Pass
variable {w : Parts α} {p : Option α} {parts : Bool → List α} {rest : List α}
  {a : α}

omit [DecidableEq α] in
theorem Halfway.tail_cell (half : Halfway w p parts rest) (b : Bool) :
    w.tail b = .head b ∨ ∃ c ∈ parts b, w.tail b = .link c := by
  rcases (half.seg b).last_cell with ⟨same, _⟩ | listed
  · exact Or.inl same
  · exact Or.inr listed

omit [DecidableEq α] in
theorem Halfway.tail_ne_link (half : Halfway w p parts rest) {b : Bool} (away : a ∉ parts b) :
    Cell.link a ≠ w.tail b := by
  intro same
  rcases half.tail_cell b with at_head | ⟨c, among, at_c⟩
  · rw [at_head] at same
    cases same
  · rw [at_c] at same
    cases same
    exact away among

omit [DecidableEq α] in
theorem Halfway.tail_other (half : Halfway w p parts rest) (b : Bool) {e : Cell α}
    (on_way : e = .head (!b) ∨ ∃ c ∈ parts !b, e = .link c) : e ≠ w.tail b := by
  rcases on_way with rfl | ⟨c, among, rfl⟩
  · intro same
    rcases half.tail_cell b with at_head | ⟨c, _, at_c⟩
    · rw [at_head] at same
      cases b <;> cases same
    · rw [at_c] at same
      cases same
  · apply half.tail_ne_link
    have back := half.apart (!b) c among
    rwa [Bool.not_not] at back

theorem Halfway.push (half : Halfway w (some a) parts (a :: rest)) (b : Bool) :
    Halfway (w.push b a) ((w.push b a).mem (.link a))
      (Function.update parts b (parts b ++ [a])) rest := by
  obtain ⟨_, chain⟩ := chain_cons_head half.chain
  obtain ⟨new, rest_once⟩ := List.nodup_cons.mp half.rest_once
  have out : ∀ b, a ∉ parts b := fun b among => half.fresh b a among (by simp)
  have mem_of_ne : ∀ {e}, e ≠ w.tail b → (w.push b a).mem e = w.mem e :=
    fun differ => Function.update_of_ne differ _ _
  refine ⟨?_, ?_, ?_, rest_once, ?_, ?_⟩
  · intro c
    by_cases own : c = b
    · subst own
      have kept : Segment (w.push c a).mem (.head c) (parts c) (w.tail c) :=
        (half.seg c).congr (half.once c) (fun _ _ => by simp) fun _ differ _ => mem_of_ne differ
      have tail : (w.push c a).tail c = .link a := Function.update_self ..
      have stored : (w.push c a).mem (w.tail c) = some a := Function.update_self ..
      rw [Function.update_self, tail]
      exact kept.append (.cons stored (.nil _))
    · have other : c = !b := by
        cases b <;> cases c <;> simp_all
      have tail : (w.push b a).tail c = w.tail c := Function.update_of_ne own _ _
      rw [Function.update_of_ne own, tail]
      refine (half.seg c).congr (half.once c) (fun _ _ => by simp) fun e _ on_way => ?_
      subst other
      exact mem_of_ne (half.tail_other b on_way)
  · rw [mem_of_ne (half.tail_ne_link (out b))]
    refine chain_congr chain fun c listed => mem_of_ne (half.tail_ne_link ?_)
    exact fun among => half.fresh b c among (by simp [listed])
  · intro c
    by_cases own : c = b
    · subst own
      rw [Function.update_self]
      exact List.nodup_append.mpr ⟨half.once c, by simp, fun x among y at_a same => by
        rw [List.mem_singleton.mp at_a] at same
        exact out c (same ▸ among)⟩
    · rw [Function.update_of_ne own]
      exact half.once c
  · intro c x among
    by_cases own : c = b
    · subst own
      rw [Function.update_self] at among
      rw [Function.update_of_ne (by simp)]
      rcases List.mem_append.mp among with old | at_a
      · exact half.apart c x old
      · rw [List.mem_singleton.mp at_a]
        exact out _
    · have other : (!c) = b := by
        cases b <;> cases c <;> simp_all
      rw [Function.update_of_ne own] at among
      rw [other, Function.update_self, List.mem_append, List.mem_singleton]
      rintro (old | rfl)
      · exact half.apart c x among (by rw [other]; exact old)
      · exact out c among
  · intro c x among listed
    by_cases own : c = b
    · subst own
      rw [Function.update_self] at among
      rcases List.mem_append.mp among with old | at_a
      · exact half.fresh c x old (by simp [listed])
      · rw [List.mem_singleton.mp at_a] at listed
        exact new listed
    · rw [Function.update_of_ne own] at among
      exact half.fresh c x among (by simp [listed])

theorem split_pass (upper : α → Bool) (half : Halfway w p parts rest) {fuel : Nat}
    (enough : rest.length < fuel) :
    ∃ w', loop (m := Id) (split upper) fuel (p, w) = some (none, w') ∧
      Halfway w' none (fun b => parts b ++ rest.filter fun a => upper a == b) [] ∧
      ∀ a, a ∉ parts false → a ∉ parts true → a ∉ rest → w'.mem (.link a) = w.mem (.link a) := by
  induction rest generalizing p w parts fuel with
  | nil =>
    cases fuel with
    | zero => cases enough
    | succ fuel =>
      have head := chain_nil_head half.chain
      subst head
      refine ⟨w, loop_done (m := Id) rfl, ?_, fun _ _ _ _ => rfl⟩
      simpa using half
  | cons a rest ih =>
    cases fuel with
    | zero => cases enough
    | succ fuel =>
      have head := (chain_cons_head half.chain).1
      subst head
      have round : split upper (some a, w) =
          some ((w.push (upper a) a).mem (.link a), w.push (upper a) a) := rfl
      rw [loop_next (m := Id) round]
      obtain ⟨w', run, done, frame⟩ := ih (half.push (upper a)) (Nat.lt_of_succ_lt_succ enough)
      refine ⟨w', run, ?_, ?_⟩
      · have same : (fun b => Function.update parts (upper a) (parts (upper a) ++ [a]) b ++
            rest.filter fun a => upper a == b) =
            fun b => parts b ++ (a :: rest).filter fun a => upper a == b := by
          funext b
          by_cases own : b = upper a
          · subst own
            rw [Function.update_self]
            simp
          · have other : (upper a == b) = false := by simpa using Ne.symm own
            rw [Function.update_of_ne own, List.filter_cons, other]
            simp
        rw [← same]
        exact done
      · intro c low high later
        obtain ⟨differ, later⟩ := not_or.mp (List.mem_cons.not.mp later)
        have still : ∀ b, c ∉ Function.update parts (upper a) (parts (upper a) ++ [a]) b := by
          intro b
          by_cases own : b = upper a
          · subst own
            rw [Function.update_self, List.mem_append, List.mem_singleton]
            rintro (old | at_a)
            · cases at_b : upper a
              · exact low (at_b ▸ old)
              · exact high (at_b ▸ old)
            · exact differ at_a
          · rw [Function.update_of_ne own]
            cases b
            · exact low
            · exact high
        rw [frame c (still false) (still true) later]
        refine Function.update_of_ne (half.tail_ne_link ?_) _ _
        cases at_b : upper a
        · exact low
        · exact high

theorem Halfway.join (half : Halfway w p parts []) :
    Chain (fun a => w.join (.link a)) (w.join (.head false)) (parts false ++ parts true) := by
  have apart : w.tail true ≠ w.tail false := half.tail_other false (half.tail_cell true)
  have kept : ∀ {e}, e ≠ w.tail true → e ≠ w.tail false → w.join e = w.mem e := by
    intro e high low
    unfold Parts.join
    rw [Function.update_of_ne low, Function.update_of_ne high]
  have ends : w.join (w.tail true) = none := by
    unfold Parts.join
    rw [Function.update_of_ne apart, Function.update_self]
  have goes : w.join (w.tail false) = w.join (.head true) := by
    have differ : Cell.head true ≠ w.tail false := half.tail_other false (Or.inl rfl)
    unfold Parts.join
    rw [Function.update_self, Function.update_of_ne differ]
  have high : Segment w.join (.head true) (parts true) (w.tail true) :=
    (half.seg true).congr (half.once true) (fun _ _ => by simp)
      fun e differ on_way => kept differ (half.tail_other false on_way)
  have low : Segment w.join (.head false) (parts false) (w.tail false) :=
    (half.seg false).congr (half.once false) (fun _ _ => by simp)
      fun e differ on_way => kept (half.tail_other true on_way) differ
  have upper_chain : Chain (fun a => w.join (.link a)) (w.join (.head true)) (parts true ++ []) := by
    refine high.chain ?_
    rw [ends]
    exact .nil
  rw [List.append_nil] at upper_chain
  refine low.chain ?_
  rw [goes]
  exact upper_chain

/-- The whole: a list split in two and joined is the elements of the lower part, then those of the
    upper, each part in its order; no link of another element is written. -/
theorem split_join (upper : α → Bool) {mem : Cell α → Option α} {xs : List α}
    (list : Chain (fun a => mem (.link a)) p xs) (once : xs.Nodup) {fuel : Nat}
    (enough : xs.length < fuel) :
    ∃ w, loop (m := Id) (split upper) fuel (p, ⟨mem, .head⟩) = some (none, w) ∧
      Chain (fun a => w.join (.link a)) (w.join (.head false))
        (xs.filter (fun a => !upper a) ++ xs.filter upper) ∧
      ∀ a, a ∉ xs → w.join (.link a) = mem (.link a) := by
  have start : Halfway ⟨mem, .head⟩ p (fun _ => []) xs := by
    refine ⟨fun b => .nil _, list, fun _ => List.nodup_nil, once, ?_, ?_⟩
    · intro b a among
      cases among
    · intro b a among
      cases among
  obtain ⟨w, run, half, frame⟩ := split_pass upper start enough
  have joined := half.join
  simp only [List.nil_append, beq_true, beq_false] at joined half
  refine ⟨w, run, joined, ?_⟩
  intro a away
  have low : a ∉ xs.filter fun a => !upper a := fun among => away (List.mem_filter.mp among).1
  have high : a ∉ xs.filter upper := fun among => away (List.mem_filter.mp among).1
  unfold Parts.join
  rw [Function.update_of_ne (half.tail_ne_link (b := false) (by simpa using low)),
    Function.update_of_ne (half.tail_ne_link (b := true) (by simpa using high))]
  exact frame a (by simp) (by simp) away

end Pass

end TailSplit
