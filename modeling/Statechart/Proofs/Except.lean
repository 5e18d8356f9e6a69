import Mathlib.Data.List.Forall2

/- Computations that can fail, one after another. -/
namespace Statechart.Except

theorem bind_eq_ok {ε β γ : Type} {x : Except ε β} {f : β → Except ε γ} {r : γ}
    (run : (x >>= f) = .ok r) : ∃ b, x = .ok b ∧ f b = .ok r := by
  cases x with
  | error fault => cases run
  | ok b => exact ⟨b, rfl, run⟩

theorem bind_eq_error {ε β γ : Type} {x : Except ε β} {f : β → Except ε γ} {e : ε}
    (failed : (x >>= f) = .error e) : x = .error e ∨ ∃ b, x = .ok b ∧ f b = .error e := by
  cases x with
  | error fault =>
    cases failed
    exact Or.inl rfl
  | ok b => exact Or.inr ⟨b, rfl, failed⟩

theorem mapM_ok {ε β γ : Type} {f : β → Except ε γ} {P : γ → Prop}
    (each : ∀ b r, f b = .ok r → P r) {l : List β} {rs : List γ} (run : l.mapM f = .ok rs) :
    ∀ r ∈ rs, P r := by
  induction l generalizing rs with
  | nil =>
    rw [List.mapM_nil] at run
    cases run
    intro r hr
    cases hr
  | cons b rest ih =>
    rw [List.mapM_cons] at run
    obtain ⟨r,first,run⟩ := bind_eq_ok run
    obtain ⟨rs',others,run⟩ := bind_eq_ok run
    cases run
    intro q hq
    rcases List.mem_cons.mp hq with rfl | hq
    · exact each b q first
    · exact ih others q hq

theorem mapM_map_ok {α β γ ε : Type} {f : β → Except ε γ} {g : α → β} {value : α → γ} {l : List α}
    (each : ∀ a ∈ l, f (g a) = .ok (value a)) : (l.map g).mapM f = .ok (l.map value) := by
  induction l with
  | nil => rfl
  | cons a rest ih =>
    rw [List.map_cons, List.mapM_cons, each a List.mem_cons_self,
      ih fun b hb => each b (List.mem_cons_of_mem a hb)]
    rfl

theorem forall₂_of_mapM {α β ε : Type} {f : α → Except ε β} {l : List α} {r : List β}
    (run : l.mapM f = .ok r) : List.Forall₂ (fun a b => f a = .ok b) l r := by
  induction l generalizing r with
  | nil =>
    cases run
    exact .nil
  | cons a rest ih =>
    rw [List.mapM_cons] at run
    obtain ⟨b,first,run⟩ := bind_eq_ok run
    obtain ⟨bs,others,run⟩ := bind_eq_ok run
    cases run
    exact .cons first (ih others)

theorem mapM_of_forall₂ {α β ε : Type} {f : α → Except ε β} {l : List α} {r : List β}
    (each : List.Forall₂ (fun a b => f a = .ok b) l r) : l.mapM f = .ok r := by
  induction each with
  | nil => rfl
  | cons first _ ih =>
    rw [List.mapM_cons, first, ih]
    rfl

theorem mapM_eq_of_forall₂ {α β γ ε : Type} {f : α → Except ε γ} {g : β → Except ε γ} {l : List α}
    {l' : List β} (same : List.Forall₂ (fun a b => f a = g b) l l') : l.mapM f = l'.mapM g := by
  induction same with
  | nil => rfl
  | cons here _ ih => rw [List.mapM_cons, List.mapM_cons, here, ih]

theorem mapM_error {α β ε : Type} {f : α → Except ε β} {e : ε} {l : List α}
    (failed : l.mapM f = .error e) : ∃ a ∈ l, f a = .error e := by
  induction l with
  | nil => cases failed
  | cons a rest ih =>
    rw [List.mapM_cons] at failed
    cases first : f a with
    | error e' =>
      rw [first] at failed
      cases failed
      exact ⟨a, List.mem_cons_self, first⟩
    | ok b =>
      rw [first] at failed
      cases others : rest.mapM f with
      | error e' =>
        rw [others] at failed
        cases failed
        obtain ⟨c,hc,error⟩ := ih others
        exact ⟨c, List.mem_cons_of_mem a hc, error⟩
      | ok bs =>
        rw [others] at failed
        cases failed

end Statechart.Except
