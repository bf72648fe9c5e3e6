import Allotment.Text.Matcher
import Allotment.Proofs.Text.Reader

/-!
# Preferred matches

All ways in which a matcher matches are told by membership. Which of them is the preferred one is
told by what comes after the matcher: where that rules out all but one way, the matcher does what a
reader does, it `Commits` to it. Else the ways before the preferred one have to fail.
-/

namespace Allotment.Text.Matcher

variable {α β γ : Type} {m m' : Matcher α} {f : α → Matcher β} {p q : Char → Bool} {c : Char}
  {l : String} {s w rest : List Char} {a : α} {b : β}

/-! ## All matches -/

theorem mem_pure {a' : α} : (a', rest) ∈ (pure a : Matcher α) s ↔ a' = a ∧ rest = s := by
  change (a', rest) ∈ [(a, s)] ↔ _
  rw [List.mem_singleton, Prod.mk.injEq]

theorem mem_bind : (b, rest) ∈ (m >>= f) s ↔
    ∃ a middle, (a, middle) ∈ m s ∧ (b, rest) ∈ f a middle := by
  change (b, rest) ∈ (m s).flatMap _ ↔ _
  rw [List.mem_flatMap]
  constructor
  · rintro ⟨⟨a, middle⟩, hm, hf⟩
    exact ⟨a, middle, hm, hf⟩
  · rintro ⟨a, middle, hm, hf⟩
    exact ⟨(a, middle), hm, hf⟩

theorem mem_orElse : (a, rest) ∈ (m <|> m') s ↔ (a, rest) ∈ m s ∨ (a, rest) ∈ m' s :=
  List.mem_append

theorem mem_one : (c, rest) ∈ one p s ↔ s = c :: rest ∧ p c := by
  cases s with
  | nil => simp [one]
  | cons d s =>
      by_cases hd : p d
      · simp [one, hd]
        grind
      · simp [one, hd]
        grind

theorem mem_literal {y : Unit} : (y, rest) ∈ literal l s ↔ s = l.toList ++ rest := by
  unfold literal
  by_cases hl : l.toList <+: s
  · obtain ⟨tail, rfl⟩ := hl
    simp [← String.length_toList]
    grind
  · simp only [List.isPrefixOf_iff_prefix, hl, if_false, List.not_mem_nil, false_iff]
    rintro rfl
    exact hl (List.prefix_append _ _)

theorem mem_greedy : (w, rest) ∈ greedy p s ↔ s = w ++ rest ∧ ∀ c ∈ w, p c := by
  induction s generalizing w with
  | nil =>
      simp [greedy]
      grind
  | cons d s ih =>
      cases w with
      | nil =>
          simp [greedy]
          grind
      | cons c w =>
          simp [greedy]
          grind

theorem mem_lazy : (w, rest) ∈ lazy p s ↔ s = w ++ rest ∧ ∀ c ∈ w, p c := by
  induction s generalizing w with
  | nil =>
      simp [lazy]
      grind
  | cons d s ih =>
      cases w with
      | nil =>
          simp [lazy]
          grind
      | cons c w =>
          simp [lazy]
          grind

/-- The first character is taken off by itself. -/
theorem mem_one_cons {m : Matcher (List Char)}
    (hm : ∀ {s w rest}, (w, rest) ∈ m s ↔ s = w ++ rest ∧ ∀ c ∈ w, p c) :
    (w, rest) ∈ (do let c ← one p; return c :: (← m) : Matcher (List Char)) s ↔
      w ≠ [] ∧ s = w ++ rest ∧ ∀ c ∈ w, p c := by
  simp only [mem_bind, mem_one, mem_pure, hm]
  constructor
  · rintro ⟨c, _, ⟨rfl, hc⟩, v, _, ⟨rfl, hv⟩, rfl, rfl⟩
    exact ⟨List.cons_ne_nil c v, rfl, List.forall_mem_cons.2 ⟨hc, hv⟩⟩
  · rintro ⟨hne, rfl, hw⟩
    cases w with
    | nil => exact absurd rfl hne
    | cons c v =>
        obtain ⟨hc, hv⟩ := List.forall_mem_cons.1 hw
        exact ⟨c, v ++ rest, ⟨rfl, hc⟩, v, rest, ⟨rfl, hv⟩, rfl, rfl⟩

theorem mem_greedy1 : (w, rest) ∈ greedy1 p s ↔ w ≠ [] ∧ s = w ++ rest ∧ ∀ c ∈ w, p c :=
  mem_one_cons mem_greedy

theorem mem_lazy1 : (w, rest) ∈ lazy1 p s ↔ w ≠ [] ∧ s = w ++ rest ∧ ∀ c ∈ w, p c :=
  mem_one_cons mem_lazy

theorem mem_perhaps {x : Option α} :
    (x, rest) ∈ perhaps m s ↔ (∃ a, x = some a ∧ (a, rest) ∈ m s) ∨ x = none ∧ rest = s := by
  change (x, rest) ∈ ((some <$> m) <|> pure none : Matcher (Option α)) s ↔ _
  rw [mem_orElse, mem_pure]
  change ((x, rest) ∈ (m >>= fun a => pure (some a)) s) ∨ _ ↔ _
  simp only [mem_bind, mem_pure]
  grind

theorem mem_perhaps_one {x : Option Char} :
    (x, rest) ∈ perhaps (one p) s ↔ s = x.toList ++ rest ∧ ∀ c ∈ x, p c := by
  simp only [mem_perhaps, mem_one]
  cases x with
  | none =>
      simp
      exact eq_comm
  | some c => simp

theorem mem_atEnd {y : Unit} : (y, rest) ∈ atEnd s ↔ s = [] ∧ rest = [] := by
  cases s <;> simp [atEnd]

/-! ## Places where a matcher fails -/

theorem bind_eq_nil (h : ∀ a rest, (a, rest) ∈ m s → f a rest = []) : (m >>= f) s = [] :=
  List.flatMap_eq_nil_iff.2 fun x hx => h x.1 x.2 hx

/-- The matcher fails at the characters of the class. -/
def Rejects (p : Char → Bool) (m : Matcher α) : Prop :=
  ∀ c s, p c → m (c :: s) = []

theorem Rejects.bind (hm : Rejects p m) : Rejects p (m >>= f) := by
  intro c s hc
  apply bind_eq_nil
  intro a rest hmem
  rw [hm c s hc] at hmem
  contradiction

theorem Rejects.orElse (hm : Rejects p m) (hm' : Rejects p m') : Rejects p (m <|> m') := by
  intro c s hc
  exact List.append_eq_nil_iff.2 ⟨hm c s hc, hm' c s hc⟩

theorem forall_beq_iff {x : Char} : (∀ c, (c == x) = true → q c = false) ↔ q x = false := by
  simp

theorem rejects_one (h : ∀ c, p c → q c = false) : Rejects p (one q) := by
  intro c s hc
  simp [one, h c hc]

theorem rejects_greedy1 (h : ∀ c, p c → q c = false) : Rejects p (greedy1 q) :=
  (rejects_one h).bind

theorem rejects_literal (hl : l.toList.head? = some c) (h : p c = false) :
    Rejects p (literal l) := by
  intro d s hd
  rw [List.eq_nil_iff_forall_not_mem]
  rintro ⟨y, rest⟩ hmem
  obtain ⟨tail, htail⟩ := List.head?_eq_some_iff.1 hl
  rw [mem_literal, htail] at hmem
  obtain rfl : d = c := List.head_eq_of_cons_eq hmem
  rw [h] at hd
  contradiction

theorem Rejects.greedy_bind {f : List Char → Matcher β} (h : ∀ c, p c → q c = false)
    (hf : Rejects p (f [])) : Rejects p (greedy q >>= f) := by
  intro c s hc
  change (greedy q (c :: s)).flatMap _ = []
  simp [greedy, h c hc, hf c s hc]

/-- What may be missing is passed over. -/
theorem Rejects.perhaps_bind {f : Option α → Matcher β} (hm : Rejects p m)
    (hf : Rejects p (f none)) : Rejects p (perhaps m >>= f) := by
  intro c s hc
  apply bind_eq_nil
  intro x rest hmem
  rcases mem_perhaps.1 hmem with ⟨a, -, hmem⟩ | ⟨rfl, rfl⟩
  · rw [hm c s hc] at hmem
    contradiction
  · exact hf c s hc

/-! ## Matchers that have no choice -/

theorem bind_assoc {g : β → Matcher γ} : (m >>= f) >>= g = m >>= fun a => f a >>= g :=
  funext fun _ => List.flatMap_assoc

theorem pure_bind : (pure a >>= f : Matcher β) = f a :=
  funext fun _ => List.flatMap_singleton _ _

theorem orElse_bind : ((m <|> m') >>= f) s = (m >>= f) s ++ (m' >>= f) s :=
  List.flatMap_append

theorem Rejects.pure_bind (h : Rejects p (f a)) : Rejects p (pure a >>= f) := by
  rwa [Matcher.pure_bind]

/-- The matcher, before what follows, does what the reader does. -/
def Commits (m : Matcher α) (r : Reader α) (f : α → Matcher β) : Prop :=
  ∀ s, (m >>= f) s = (r s).elim [] fun x => f x.1 x.2

theorem Commits.bind {r : Reader α} {g : α → Reader β} {h : β → Matcher γ}
    (hm : Commits m r fun a => f a >>= h) (hf : ∀ a, Commits (f a) (g a) h) :
    Commits (m >>= f) (r >>= g) h := by
  intro s
  rw [bind_assoc, hm s]
  change _ = ((r s).bind _).elim _ _
  cases r s with
  | none => rfl
  | some x => exact hf x.1 x.2

theorem commits_pure : Commits (pure a) (pure a) f := by
  intro s
  rw [pure_bind]
  rfl

theorem commits_one {f : Char → Matcher β} : Commits (one p) (Reader.satisfying p) f := by
  intro s
  cases s with
  | nil => rfl
  | cons c s =>
      change (one p (c :: s)).flatMap _ = _
      by_cases hc : p c
      · simp [one, Reader.satisfying, hc]
      · simp [one, Reader.satisfying, hc]

theorem commits_literal {f : Unit → Matcher β} : Commits (literal l) (Reader.literal l) f := by
  intro s
  change (literal l s).flatMap _ = _
  unfold literal Reader.literal
  by_cases hl : l.toList.isPrefixOf s
  · simp [hl]
  · simp [hl]

/-- What follows rules out that the run is cut short. -/
theorem commits_greedy {f : List Char → Matcher β} (hf : ∀ w, Rejects p (f w)) :
    Commits (greedy p) (Reader.run p) f := by
  intro s
  induction s generalizing f with
  | nil => exact List.append_nil _
  | cons c s ih =>
      change (greedy p (c :: s)).flatMap _ = f _ _
      by_cases hc : p c
      · have hlonger := ih (f := fun w => f (c :: w)) fun w => hf (c :: w)
        change (greedy p s).flatMap _ = f _ _ at hlonger
        simp only [greedy, hc, if_true, List.flatMap_append, List.flatMap_map, hlonger,
          List.flatMap_singleton, hf [] c s hc, List.append_nil, List.takeWhile_cons,
          List.dropWhile_cons]
      · simp [greedy, hc]

theorem commits_greedy1 {f : List Char → Matcher β} (hf : ∀ w, Rejects p (f w)) :
    Commits (greedy1 p) (Reader.run1 p) f := by
  refine commits_one.bind fun c => Commits.bind (commits_greedy fun w => ?_) fun w => commits_pure
  rw [pure_bind]
  exact hf _

theorem Commits.orElse {r r' : Reader α} (hm : Commits m r f) (hm' : Commits m' r' f)
    (h : ∀ s x, r s = some x → (m' >>= f) s = []) : Commits (m <|> m') (r <|> r') f := by
  intro s
  rw [orElse_bind, hm s]
  change _ = ((r s).orElse _).elim _ _
  cases hr : r s with
  | none => exact hm' s
  | some x =>
      rw [h s x hr, List.append_nil]
      rfl

theorem perhaps_bind {f : Option α → Matcher β} :
    (perhaps m >>= f) s = (m >>= fun a => f (some a)) s ++ f none s := by
  have hsome : (some <$> m) >>= f = m >>= fun a => f (some a) := by
    change (m >>= fun a => pure (some a)) >>= f = _
    simp only [bind_assoc, pure_bind]
  change (((some <$> m) <|> pure none : Matcher (Option α)) >>= f) s = _
  rw [orElse_bind, hsome, pure_bind]

theorem Commits.perhaps {r : Reader α} {f : Option α → Matcher β}
    (hm : Commits m r fun a => f (some a)) (h : ∀ s x, r s = some x → f none s = []) :
    Commits (perhaps m) (optional r) f := by
  intro s
  rw [perhaps_bind, hm s]
  cases hr : r s with
  | none =>
      rw [Reader.optional_of_none hr]
      rfl
  | some x =>
      rw [Reader.optional_of_some hr, h s x hr]
      exact List.append_nil _

/-! ## Preferred matches -/

theorem first?_map {g : α → β} : (g <$> m).first? s = (m.first? s).map g := by
  have hmap : (g <$> m) s = (m s).map fun x => (g x.1, x.2) := List.map_eq_flatMap.symm
  rw [first?, first?, hmap, List.head?_map, Option.map_map, Option.map_map]
  rfl

theorem one_cons_bind {m : Matcher (List Char)} {f : List Char → Matcher β} (hc : p c) :
    ((do let c ← one p; return c :: (← m) : Matcher (List Char)) >>= f) (c :: s) =
      (m >>= fun w => f (c :: w)) s := by
  rw [bind_assoc, commits_one, Reader.satisfying_eq_some_iff.2 ⟨rfl, hc⟩]
  change ((m >>= fun w => pure (c :: w)) >>= f) s = _
  simp only [bind_assoc, pure_bind]

theorem greedy_bind_cons {f : List Char → Matcher β} (hc : p c) :
    (greedy p >>= f) (c :: s) = (greedy p >>= fun w => f (c :: w)) s ++ f [] (c :: s) := by
  change (greedy p (c :: s)).flatMap _ = (greedy p s).flatMap _ ++ _
  simp only [greedy, hc, if_true, List.flatMap_append, List.flatMap_map, List.flatMap_singleton]

theorem lazy_bind_cons {f : List Char → Matcher β} (hc : p c) :
    (lazy p >>= f) (c :: s) = f [] (c :: s) ++ (lazy p >>= fun w => f (c :: w)) s := by
  change (lazy p (c :: s)).flatMap _ = _ ++ (lazy p s).flatMap _
  simp only [lazy, hc, if_true, List.flatMap_cons, List.flatMap_map]

/-- A run is the preferred one if no longer one lets what follows succeed. -/
theorem head?_greedy_bind {f : List Char → Matcher β} (hw : ∀ c ∈ w, p c)
    (hlonger : ∀ v rest', rest = v ++ rest' → v ≠ [] → (∀ c ∈ v, p c) → f (w ++ v) rest' = [])
    (hne : f w rest ≠ []) : ((greedy p >>= f) (w ++ rest)).head? = (f w rest).head? := by
  induction w generalizing f with
  | nil =>
      cases rest with
      | nil => exact congrArg List.head? (List.append_nil _)
      | cons c rest =>
          by_cases hc : p c
          · have hnone : (greedy p >>= fun w => f (c :: w)) rest = [] := by
              apply bind_eq_nil
              intro v rest' hmem
              obtain ⟨rfl, hv⟩ := mem_greedy.1 hmem
              exact hlonger (c :: v) rest' rfl (List.cons_ne_nil c v)
                (List.forall_mem_cons.2 ⟨hc, hv⟩)
            rw [List.nil_append, greedy_bind_cons hc, hnone, List.nil_append]
          · change ((greedy p (c :: rest)).flatMap _).head? = _
            simp [greedy, hc]
  | cons c w ih =>
      obtain ⟨hc, hw⟩ := List.forall_mem_cons.1 hw
      have hfirst := ih (f := fun w => f (c :: w)) hw hlonger hne
      rw [List.cons_append, greedy_bind_cons hc, List.head?_append, hfirst,
        List.head?_eq_some_head hne, Option.some_or]

theorem head?_greedy1_bind {f : List Char → Matcher β} (hnil : w ≠ []) (hw : ∀ c ∈ w, p c)
    (hlonger : ∀ v rest', rest = v ++ rest' → v ≠ [] → (∀ c ∈ v, p c) → f (w ++ v) rest' = [])
    (hne : f w rest ≠ []) : ((greedy1 p >>= f) (w ++ rest)).head? = (f w rest).head? := by
  cases w with
  | nil => exact absurd rfl hnil
  | cons c w =>
      obtain ⟨hc, hw⟩ := List.forall_mem_cons.1 hw
      rw [List.cons_append, greedy1, one_cons_bind hc]
      exact head?_greedy_bind hw hlonger hne

/-- A run is the preferred one if no shorter one lets what follows succeed. -/
theorem head?_lazy_bind {f : List Char → Matcher β} (hw : ∀ c ∈ w, p c)
    (hshorter : ∀ v v', w = v ++ v' → v' ≠ [] → f v (v' ++ rest) = [])
    (hne : f w rest ≠ []) : ((lazy p >>= f) (w ++ rest)).head? = (f w rest).head? := by
  induction w generalizing f with
  | nil =>
      cases rest with
      | nil => exact congrArg List.head? (List.append_nil _)
      | cons c rest =>
          change ((lazy p (c :: rest)).flatMap _).head? = _
          rw [lazy, List.flatMap_cons, List.head?_append, List.head?_eq_some_head hne,
            Option.some_or]
  | cons c w ih =>
      obtain ⟨hc, hw⟩ := List.forall_mem_cons.1 hw
      rw [List.cons_append, lazy_bind_cons hc, ← List.cons_append,
        hshorter [] (c :: w) rfl (List.cons_ne_nil c w), List.nil_append]
      refine ih (f := fun w => f (c :: w)) hw (fun v v' hsplit hv' => ?_) hne
      exact hshorter (c :: v) v' (by rw [hsplit, List.cons_append]) hv'

theorem head?_lazy1_bind {f : List Char → Matcher β} (hnil : w ≠ []) (hw : ∀ c ∈ w, p c)
    (hshorter : ∀ v v', w = v ++ v' → v ≠ [] → v' ≠ [] → f v (v' ++ rest) = [])
    (hne : f w rest ≠ []) : ((lazy1 p >>= f) (w ++ rest)).head? = (f w rest).head? := by
  cases w with
  | nil => exact absurd rfl hnil
  | cons c w =>
      obtain ⟨hc, hw⟩ := List.forall_mem_cons.1 hw
      rw [List.cons_append, lazy1, one_cons_bind hc]
      refine head?_lazy_bind hw (fun v v' hsplit hv' => ?_) hne
      exact hshorter (c :: v) v' (by rw [hsplit, List.cons_append]) (List.cons_ne_nil c v) hv'

end Allotment.Text.Matcher
