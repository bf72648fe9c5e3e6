import Mathlib.Data.List.Infix
import Mathlib.Data.List.TakeWhile
import Allotment.Text.Reader

/-!
# What readers take off and what they meet

A reader that fails at a place is told by a character that it would have to pass there: `Takes` says
which characters it takes off, and `Meets` which character it has to come to, and past which ones.
Whether it goes on beyond the end of a text is told by `Within`. Along a search this says where the
place that is found can be, and that it does not depend on what stands behind.
-/

namespace Allotment.Text.Reader

variable {α β γ : Type} {r : Reader α} {f : α → Reader β} {p : Char → Bool} {P : Char → Prop}
  {c x : Char} {l : String} {s t u v w rest : List Char} {a : α} {b : β}

theorem bind_eq_some_iff : (r >>= f) s = some (b, rest) ↔
    ∃ a middle, r s = some (a, middle) ∧ f a middle = some (b, rest) := by
  change (r s).bind _ = _ ↔ _
  rw [Option.bind_eq_some_iff]
  constructor
  · rintro ⟨⟨a, middle⟩, hr, hf⟩
    exact ⟨a, middle, hr, hf⟩
  · rintro ⟨a, middle, hr, hf⟩
    exact ⟨(a, middle), hr, hf⟩

theorem bind_of_none (h : r s = none) : (r >>= f) s = none := by
  change (r s).bind _ = none
  rw [h, Option.bind_none]

theorem bind_of_some (h : r s = some (a, rest)) : (r >>= f) s = f a rest := by
  change (r s).bind _ = _
  rw [h, Option.bind_some]

theorem pure_eq_some_iff {a' : α} :
    (pure a : Reader α) s = some (a', rest) ↔ a = a' ∧ s = rest := by
  change some (a, s) = _ ↔ _
  rw [Option.some_inj, Prod.mk.injEq]

theorem satisfying_eq_some_iff : satisfying p s = some (c, rest) ↔ s = c :: rest ∧ p c := by
  cases s with
  | nil => simp [satisfying]
  | cons d s =>
      by_cases hd : p d <;> simp [satisfying, hd]
      · grind
      · grind

theorem satisfying_cons_of_neg (h : p c = false) : satisfying p (c :: s) = none := by
  simp [satisfying, h]

theorem run_eq_some_iff : run p s = some (w, rest) ↔ s.takeWhile p = w ∧ s.dropWhile p = rest := by
  simp [run]

theorem run1_eq_some_iff : run1 p s = some (w, rest) ↔
    w ≠ [] ∧ s.takeWhile p = w ∧ s.dropWhile p = rest := by
  cases s with
  | nil =>
      rw [run1, bind_of_none rfl]
      simp
      grind
  | cons d s =>
      by_cases hd : p d
      · have hfirst : satisfying p (d :: s) = some (d, s) := satisfying_eq_some_iff.2 ⟨rfl, hd⟩
        rw [run1, bind_of_some hfirst, bind_of_some (run_eq_some_iff.2 ⟨rfl, rfl⟩),
          pure_eq_some_iff]
        simp [hd]
        grind
      · have hfirst : satisfying p (d :: s) = none :=
          satisfying_cons_of_neg (by simpa using hd)
        rw [run1, bind_of_none hfirst]
        simp [hd]
        grind

theorem literal_eq_some_iff {y : Unit} :
    literal l s = some (y, rest) ↔ s = l.toList ++ rest := by
  unfold literal
  by_cases hl : l.toList <+: s
  · obtain ⟨tail, rfl⟩ := hl
    simp [← String.length_toList]
  · simp only [List.isPrefixOf_iff_prefix, hl, if_false, reduceCtorEq, false_iff]
    rintro rfl
    exact hl (List.prefix_append _ _)

theorem literal_append : literal l (l.toList ++ s) = some ((), s) :=
  literal_eq_some_iff.2 rfl

theorem optional_of_some (h : r s = some (a, rest)) : (optional r) s = some (some a, rest) := by
  change ((r s).bind fun x => some (some x.1, x.2)).orElse _ = _
  rw [h]
  rfl

theorem optional_of_none (h : r s = none) : (optional r) s = some (none, s) := by
  change ((r s).bind fun x => some (some x.1, x.2)).orElse _ = _
  rw [h]
  rfl

theorem exists_of_optional_satisfying {y : Option Char}
    (h : (optional (satisfying p)) s = some (y, rest)) :
    ∃ g, s = g ++ rest ∧ g.length ≤ 1 ∧ ∀ x ∈ g, p x := by
  cases hs : satisfying p s with
  | none =>
      rw [optional_of_none hs] at h
      obtain ⟨-, rfl⟩ : none = y ∧ s = rest := by simpa using h
      exact ⟨[], rfl, by simp, by simp⟩
  | some z =>
      rw [optional_of_some hs] at h
      obtain ⟨-, rfl⟩ : some z.1 = y ∧ z.2 = rest := by simpa using h
      obtain ⟨rfl, hz⟩ := satisfying_eq_some_iff.1 hs
      exact ⟨[z.1], rfl, by simp, by simpa using hz⟩

theorem orElse_eq_some {r' : Reader α} (h : (r <|> r') s = some (a, rest)) :
    r s = some (a, rest) ∨ r' s = some (a, rest) := by
  change (r s).orElse _ = _ at h
  cases hr : r s with
  | none => exact .inr (by simpa [hr] using h)
  | some x => exact .inl (by simpa [hr] using h)

theorem orElse_of_some {r' : Reader α} (h : r s = some (a, rest)) :
    (r <|> r') s = some (a, rest) := by
  change (r s).orElse _ = _
  rw [h]
  rfl

theorem orElse_of_none {r' : Reader α} (h : r s = none) : (r <|> r') s = r' s := by
  change (r s).orElse _ = _
  rw [h]
  rfl

/-! ## What is taken off -/

/-- The reader takes off characters of the class only. -/
def Takes (P : Char → Prop) (r : Reader α) : Prop :=
  ∀ ⦃s a rest⦄, r s = some (a, rest) → ∃ t, s = t ++ rest ∧ ∀ c ∈ t, P c

theorem Takes.suffix (h : Takes P r) (hr : r s = some (a, rest)) : rest <:+ s := by
  obtain ⟨t, rfl, -⟩ := h hr
  exact List.suffix_append t rest

theorem takes_pure : Takes P (pure a : Reader α) := by
  intro s a' rest h
  obtain ⟨-, rfl⟩ := pure_eq_some_iff.1 h
  exact ⟨[], rfl, by simp⟩

theorem Takes.bind (hr : Takes P r) (hf : ∀ a, Takes P (f a)) : Takes P (r >>= f) := by
  intro s b rest h
  obtain ⟨a, middle, hfirst, hsecond⟩ := bind_eq_some_iff.1 h
  obtain ⟨t, rfl, ht⟩ := hr hfirst
  obtain ⟨u, rfl, hu⟩ := hf a hsecond
  refine ⟨t ++ u, (List.append_assoc _ _ _).symm, ?_⟩
  simp only [List.mem_append]
  grind

theorem Takes.orElse {r' : Reader α} (hr : Takes P r) (hr' : Takes P r') : Takes P (r <|> r') := by
  intro s a rest h
  rcases orElse_eq_some h with h | h
  · exact hr h
  · exact hr' h

theorem Takes.optional (hr : Takes P r) : Takes P (optional r) := by
  intro s a rest h
  cases hs : r s with
  | none =>
      rw [optional_of_none hs] at h
      obtain ⟨-, rfl⟩ : none = a ∧ s = rest := by simpa using h
      exact ⟨[], rfl, by simp⟩
  | some x =>
      rw [optional_of_some hs] at h
      obtain ⟨-, rfl⟩ : some x.1 = a ∧ x.2 = rest := by simpa using h
      exact hr hs

theorem takes_satisfying (hp : ∀ c, p c → P c) : Takes P (satisfying p) := by
  intro s c rest h
  obtain ⟨rfl, hc⟩ := satisfying_eq_some_iff.1 h
  exact ⟨[c], rfl, by simpa using hp c hc⟩

theorem takes_char (hc : P c) : Takes P (char c) :=
  takes_satisfying fun x hx => by
    obtain rfl : x = c := by simpa using hx
    exact hc

theorem takes_run (hp : ∀ c, p c → P c) : Takes P (run p) := by
  intro s w rest h
  obtain ⟨-, rfl⟩ := run_eq_some_iff.1 h
  exact ⟨s.takeWhile p, List.takeWhile_append_dropWhile.symm, fun c hc =>
    hp c (List.mem_takeWhile_imp hc)⟩

theorem takes_run1 (hp : ∀ c, p c → P c) : Takes P (run1 p) :=
  (takes_satisfying hp).bind fun _ => (takes_run hp).bind fun _ => takes_pure

theorem takes_literal (hl : ∀ c ∈ l.toList, P c) : Takes P (literal l) := by
  intro s y rest h
  exact ⟨l.toList, literal_eq_some_iff.1 h, hl⟩

/-! ## What is met -/

/-- The reader comes to the given character past characters of the class only. -/
def Meets (P : Char → Prop) (c : Char) (r : Reader α) : Prop :=
  ∀ ⦃s a rest⦄, r s = some (a, rest) → ∃ t u, s = t ++ c :: u ∧ ∀ x ∈ t, P x

theorem Meets.bind (hr : Meets P c r) : Meets P c (r >>= f) := by
  intro s b rest h
  obtain ⟨a, middle, hfirst, -⟩ := bind_eq_some_iff.1 h
  exact hr hfirst

theorem Takes.meets (hr : Takes P r) (hf : ∀ a, Meets P c (f a)) : Meets P c (r >>= f) := by
  intro s b rest h
  obtain ⟨a, middle, hfirst, hsecond⟩ := bind_eq_some_iff.1 h
  obtain ⟨t, rfl, ht⟩ := hr hfirst
  obtain ⟨u, v, rfl, hu⟩ := hf a hsecond
  refine ⟨t ++ u, v, (List.append_assoc _ _ _).symm, ?_⟩
  simp only [List.mem_append]
  grind

theorem meets_char : Meets P c (char c) := by
  intro s x rest h
  obtain ⟨rfl, hx⟩ := satisfying_eq_some_iff.1 h
  obtain rfl : x = c := by simpa using hx
  exact ⟨[], rest, rfl, by simp⟩

theorem meets_literal (hl : l.toList.head? = some c) : Meets P c (literal l) := by
  intro s y rest h
  rw [literal_eq_some_iff] at h
  obtain ⟨tail, htail⟩ := List.head?_eq_some_iff.1 hl
  exact ⟨[], tail ++ rest, by rw [h, htail]; rfl, by simp⟩

theorem Meets.eq_none_of_not_mem (h : Meets P c r) (hc : c ∉ s) : r s = none := by
  rw [Option.eq_none_iff_forall_ne_some]
  rintro ⟨a, rest⟩ hr
  obtain ⟨t, u, rfl, -⟩ := h hr
  exact hc (by simp)

/-- The reader does not get past another character that is not of the class. -/
theorem Meets.eq_none_of_blocked (h : Meets P c r) (hx : ¬P x) (hu : c ∉ u ++ [x]) :
    r (u ++ x :: v) = none := by
  rw [Option.eq_none_iff_forall_ne_some]
  rintro ⟨a, rest⟩ hr
  obtain ⟨t, w, hsplit, ht⟩ := h hr
  rcases List.append_eq_append_iff.1 hsplit with ⟨m, rfl, hm⟩ | ⟨m, rfl, hm⟩
  · cases m with
    | nil =>
        obtain rfl : x = c := by simpa using List.head_eq_of_cons_eq hm
        simp at hu
    | cons y m =>
        obtain rfl : x = y := List.head_eq_of_cons_eq hm
        exact hx (ht x (by simp))
  · cases m with
    | nil =>
        obtain rfl : c = x := List.head_eq_of_cons_eq hm
        simp at hu
    | cons y m =>
        obtain rfl : c = y := List.head_eq_of_cons_eq hm
        simp at hu

/-! ## What stands behind a text -/

/-- The reader does with a text what it does with the text alone, whatever stands behind. -/
def Within (r : Reader α) (w t : List Char) : Prop :=
  r (w ++ t) = (r w).map fun (a, rest) => (a, rest ++ t)

theorem within_nil (r : Reader α) (w : List Char) : Within r w [] := by
  simp [Within]

theorem within_of_none (h : r w = none) (h' : r (w ++ t) = none) : Within r w t := by
  rw [Within, h, h', Option.map_none]

theorem within_pure : Within (pure a : Reader α) w t :=
  rfl

theorem Within.bind (hr : Within r w t)
    (hf : ∀ a rest, r w = some (a, rest) → Within (f a) rest t) : Within (r >>= f) w t := by
  unfold Within at hr ⊢
  cases h : r w with
  | none =>
      rw [h] at hr
      rw [bind_of_none h, bind_of_none hr, Option.map_none]
  | some x =>
      rw [h] at hr
      rw [bind_of_some h, bind_of_some hr]
      exact hf x.1 x.2 h

theorem within_satisfying (h : w = [] → ∀ c ∈ t.head?, p c = false) :
    Within (satisfying p) w t := by
  cases w with
  | cons c w =>
      by_cases hc : p c <;> simp [Within, satisfying, hc]
  | nil =>
      apply within_of_none rfl
      cases t with
      | nil => rfl
      | cons c t => exact satisfying_cons_of_neg (h rfl c rfl)

theorem takeWhile_append_of_stop (h : w.dropWhile p = [] → ∀ c ∈ t.head?, p c = false) :
    (w ++ t).takeWhile p = w.takeWhile p ∧ (w ++ t).dropWhile p = w.dropWhile p ++ t := by
  induction w with
  | nil =>
      cases t with
      | nil => simp
      | cons c t => simp [h rfl c rfl]
  | cons c w ih =>
      by_cases hc : p c
      · simp only [List.dropWhile_cons, hc, if_true] at h
        simp [hc, ih h]
      · simp [hc]

theorem takeWhile_append_of_all (hw : ∀ c ∈ w, p c) (ht : ∀ c ∈ t.head?, p c = false) :
    (w ++ t).takeWhile p = w ∧ (w ++ t).dropWhile p = t := by
  have hnil : w.dropWhile p = [] := List.dropWhile_eq_nil_iff.2 hw
  obtain ⟨htake, hdrop⟩ := takeWhile_append_of_stop fun _ => ht
  rw [htake, hdrop, hnil]
  exact ⟨List.takeWhile_eq_self_iff.2 hw, rfl⟩

theorem within_run (h : w.dropWhile p = [] → ∀ c ∈ t.head?, p c = false) :
    Within (run p) w t := by
  obtain ⟨htake, hdrop⟩ := takeWhile_append_of_stop h
  simp [Within, run, htake, hdrop]

theorem within_run1 (h : w.dropWhile p = [] → ∀ c ∈ t.head?, p c = false) :
    Within (run1 p) w t := by
  have hfirst : Within (satisfying p) w t := within_satisfying fun hw => h (by simp [hw])
  refine hfirst.bind fun c rest hread => ?_
  obtain ⟨rfl, hc⟩ := satisfying_eq_some_iff.1 hread
  have hrest : Within (run p) rest t := within_run fun hrest => h (by simp [hc, hrest])
  exact hrest.bind fun _ _ _ => within_pure

theorem within_literal (h : ∀ c ∈ t.head?, c ∉ l.toList) : Within (literal l) w t := by
  have hprefix : l.toList <+: w ++ t ↔ l.toList <+: w := by
    refine ⟨fun hl => ?_, fun hl => hl.trans (List.prefix_append w t)⟩
    rcases List.prefix_or_prefix_of_prefix hl (List.prefix_append w t) with hl' | hl'
    · exact hl'
    · -- the literal would go on with what stands behind
      obtain ⟨v, hv⟩ := hl'
      rw [← hv, List.prefix_append_right_inj] at hl
      cases v with
      | nil => simp [← hv]
      | cons c v =>
          obtain ⟨t', rfl⟩ := hl
          have hmem : c ∈ l.toList := by
            rw [← hv]
            exact List.mem_append_right w List.mem_cons_self
          exact absurd hmem (h c rfl)
  unfold Within literal
  by_cases hl : l.toList <+: w
  · have hle : l.length ≤ w.length := String.length_toList ▸ hl.length_le
    simp [hl, hprefix, List.drop_append_of_le_length hle]
  · simp [hl, hprefix]

theorem Within.optional (h : Within r w t) : Within (optional r) w t := by
  unfold Within at h ⊢
  cases hr : r w with
  | none =>
      rw [hr] at h
      rw [optional_of_none hr, optional_of_none h]
      rfl
  | some x =>
      rw [hr] at h
      rw [optional_of_some hr, optional_of_some h]
      rfl

/-! ## Search -/

/-- Two places tell the same, as far as the values are told apart. -/
def Agree (h : α → γ) (r : Reader α) (s s' : List Char) : Prop :=
  (r s).map (fun x => h x.1) = (r s').map fun x => h x.1

theorem Within.agree {h : α → γ} {t' : List Char} (ht : Within r w t) (ht' : Within r w t') :
    Agree h r (w ++ t) (w ++ t') := by
  unfold Agree
  rw [ht, ht', Option.map_map, Option.map_map]
  rfl

theorem Within.agree_bind {h : β → γ} {t' : List Char} (ht : Within r w t) (ht' : Within r w t')
    (hf : ∀ a rest, r w = some (a, rest) → Agree h (f a) (rest ++ t) (rest ++ t')) :
    Agree h (r >>= f) (w ++ t) (w ++ t') := by
  unfold Agree
  unfold Within at ht ht'
  cases hr : r w with
  | none =>
      rw [hr] at ht ht'
      rw [bind_of_none ht, bind_of_none ht']
  | some x =>
      rw [hr] at ht ht'
      rw [bind_of_some ht, bind_of_some ht']
      exact hf x.1 x.2 hr

theorem search_eq_none (h : ∀ v, v <:+ s → r v = none) : search r s = none := by
  induction s with
  | nil => simp [search, h [] (List.suffix_refl _)]
  | cons c s ih =>
      rw [search, h _ (List.suffix_refl _),
        ih fun v hv => h v (hv.trans (List.suffix_cons c s))]
      rfl

theorem Meets.search_eq_none (h : Meets P c r) (hc : c ∉ s) : search r s = none :=
  Reader.search_eq_none fun _ hv => h.eq_none_of_not_mem fun hmem => hc (hv.subset hmem)

/-- Where the reader fails at every place before it, the search begins with what is left. -/
theorem search_append_of_none (h : ∀ v, v <:+ w → v ≠ [] → r (v ++ t) = none) :
    search r (w ++ t) = search r t := by
  induction w with
  | nil => rfl
  | cons c w ih =>
      have hfirst := h (c :: w) (List.suffix_refl _) (List.cons_ne_nil c w)
      rw [List.cons_append] at hfirst
      rw [List.cons_append, search, hfirst,
        ih fun v hv => h v (hv.trans (List.suffix_cons c w))]
      rfl

/-- Where two texts have the same places up to some point, and the same is told at each of these,
what is found in them differs only if what is found behind that point does. -/
theorem search_append_congr {h : α → γ} {t' : List Char}
    (hw : ∀ v, v <:+ w → v ≠ [] → Agree h r (v ++ t) (v ++ t'))
    (ht : (search r t).map h = (search r t').map h) :
    (search r (w ++ t)).map h = (search r (w ++ t')).map h := by
  induction w with
  | nil => exact ht
  | cons c w ih =>
      have hrest := ih fun v hv => hw v (hv.trans (List.suffix_cons c w))
      have hfirst := hw (c :: w) (List.suffix_refl _) (List.cons_ne_nil c w)
      simp only [Agree, List.cons_append] at hfirst
      simp only [List.cons_append, search]
      cases hr : r (c :: (w ++ t)) <;> cases hr' : r (c :: (w ++ t')) <;>
        simp_all

end Allotment.Text.Reader
