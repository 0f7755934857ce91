import IptvRelay.Lib.Checked

/-!
# Loops with a visitor

A loop that hands what it finds to a visitor keeps the state of the visitor in its own state. When
a step does nothing else with it, a run with a visitor is a run without one, and behind it the
visitor on the calls of the run: as far as both succeed.
-/

namespace Replay

open Checked

/-- A state of a loop for every type of the visitor's state, with the calls so far. -/
structure Carrier (S : Type → Type) (ν : Type) where
  visitor : ∀ {σ}, S σ → σ
  calls : ∀ {σ}, S σ → List ν
  withVisitor : ∀ {σ τ}, S σ → τ → S τ
  visitor_with : ∀ {σ τ} (s : S σ) (v : τ), visitor (withVisitor s v) = v
  calls_with : ∀ {σ τ} (s : S σ) (v : τ), calls (withVisitor s v) = calls s
  with_with : ∀ {σ τ υ} (s : S σ) (v : τ) (w : υ),
    withVisitor (withVisitor s v) w = withVisitor s w
  with_visitor : ∀ {σ} (s : S σ), withVisitor s (visitor s) = s

abbrev Beside (S : Type → Type) (ρ σ : Type) : Type := S σ × ρ

/-- The state beside something that the visitor does not see. -/
def Carrier.beside {S : Type → Type} {ν : Type} (carrier : Carrier S ν) (ρ : Type) :
    Carrier (Beside S ρ) ν where
  visitor s := carrier.visitor s.1
  calls s := carrier.calls s.1
  withVisitor s v := (carrier.withVisitor s.1 v, s.2)
  visitor_with s v := carrier.visitor_with s.1 v
  calls_with s v := carrier.calls_with s.1 v
  with_with s v w := by rw [carrier.with_with]
  with_visitor s := by rw [carrier.with_visitor]

variable {S S' : Type → Type} {ν σ ε α : Type} (carrier : Carrier S ν)
  (visit : σ → ν → Except ε σ)

/-! ## Steps -/

/-- The step without a visitor has the result `x`, the one with the visitor the result `y`. -/
inductive Replays (s : S σ) : Except ε (S Unit) → Except ε (S σ) → Prop
  | error (error : ε) : Replays s (.error error) (.error error)
  | calls (t : S Unit) (new : List ν) : carrier.calls t = carrier.calls s ++ new →
      Replays s (.ok t) ((new.foldlM visit (carrier.visitor s)).map (carrier.withVisitor t))

variable {carrier visit} {s : S σ} {t : S Unit} {x : Except ε (S Unit)} {y : Except ε (S σ)}

theorem Replays.same (h : carrier.calls t = carrier.calls s) :
    Replays carrier visit s (.ok t) (.ok (carrier.withVisitor t (carrier.visitor s))) :=
  .calls t [] (by rw [h, List.append_nil])

theorem Replays.once {call : ν} (h : carrier.calls t = carrier.calls s ++ [call]) :
    Replays carrier visit s (.ok t)
      (visit (carrier.visitor s) call >>= fun v => .ok (carrier.withVisitor t v)) := by
  have hreplay : Replays carrier visit s (.ok t)
      (([call].foldlM visit (carrier.visitor s)).map (carrier.withVisitor t)) := .calls t [call] h
  rw [List.foldlM_cons] at hreplay
  cases hcall : visit (carrier.visitor s) call with
  | error error =>
    rw [hcall] at hreplay
    exact hreplay
  | ok v =>
    rw [hcall] at hreplay
    exact hreplay

/-- Both steps begin with the same computation. -/
theorem Replays.bind (first : Except ε α) {g : α → Except ε (S Unit)} {f : α → Except ε (S σ)}
    (h : ∀ a, Replays carrier visit s (g a) (f a)) :
    Replays carrier visit s (first >>= g) (first >>= f) := by
  cases first with
  | error error => exact .error error
  | ok a => exact h a

/-- Both steps end with a change that leaves the calls and the visitor alone. -/
theorem Replays.map (h : Replays carrier visit s x y) {g : S Unit → S Unit} {f : S σ → S σ}
    (hcalls : ∀ t, carrier.calls (g t) = carrier.calls t)
    (hmap : ∀ t v, f (carrier.withVisitor t v) = carrier.withVisitor (g t) v) :
    Replays carrier visit s (x >>= fun t => .ok (g t)) (y >>= fun u => .ok (f u)) := by
  cases h with
  | error error => exact .error error
  | calls t new hnew =>
    have hreplay : Replays carrier visit s (.ok (g t))
        ((new.foldlM visit (carrier.visitor s)).map (carrier.withVisitor (g t))) :=
      .calls (g t) new ((hcalls t).trans hnew)
    cases hfold : new.foldlM visit (carrier.visitor s) with
    | error error =>
      rw [hfold] at hreplay
      exact hreplay
    | ok v =>
      rw [hfold] at hreplay
      change Replays carrier visit s (.ok (g t)) (.ok (f (carrier.withVisitor t v)))
      rw [hmap]
      exact hreplay

/-- The steps start in a state that has the same calls and the same visitor. -/
theorem Replays.start {s' : S σ} (h : Replays carrier visit s' x y)
    (hcalls : carrier.calls s' = carrier.calls s)
    (hvisitor : carrier.visitor s' = carrier.visitor s) : Replays carrier visit s x y := by
  cases h with
  | error error => exact .error error
  | calls t new hnew =>
    rw [hvisitor]
    exact .calls t new (hnew.trans (by rw [hcalls]))

/-! ## Runs -/

/-- The visitor `v` passes the calls of `t` behind those of `before`, and `u` is `t` with it. -/
def Replayed (carrier : Carrier S ν) (visit : σ → ν → Except ε σ) (before : List ν) (v : σ)
    (t : S Unit) (u : S σ) : Prop :=
  ∃ new, carrier.calls t = before ++ new ∧ new.foldlM visit v = .ok (carrier.visitor u) ∧
    u = carrier.withVisitor t (carrier.visitor u)

/-- The two runs agree as far as both succeed. -/
structure Agrees (carrier : Carrier S ν) (visit : σ → ν → Except ε σ) (before : List ν) (v : σ)
    (x : Except ε (S Unit)) (y : Except ε (S σ)) : Prop where
  grows : ∀ t, x = .ok t → ∃ new, carrier.calls t = before ++ new
  ok_iff : ∀ u, y = .ok u ↔ ∃ t, x = .ok t ∧ Replayed carrier visit before v t u

theorem Replays.agrees (h : Replays carrier visit s x y) :
    Agrees carrier visit (carrier.calls s) (carrier.visitor s) x y := by
  cases h with
  | error error => exact ⟨nofun, fun _ => ⟨nofun, nofun⟩⟩
  | calls t new hnew =>
    refine ⟨fun t' ht => ⟨new, Except.ok.inj ht ▸ hnew⟩, fun u => ?_⟩
    constructor
    · intro hok
      cases hfold : new.foldlM visit (carrier.visitor s) with
      | error error =>
        rw [hfold] at hok
        cases hok
      | ok v =>
        rw [hfold] at hok
        obtain rfl := Except.ok.inj hok
        refine ⟨t, rfl, new, hnew, ?_, ?_⟩
        · rw [carrier.visitor_with, hfold]
        · rw [carrier.visitor_with]
    · rintro ⟨t', hsame, new', hnew', hfold, hu⟩
      obtain rfl := Except.ok.inj hsame
      obtain rfl := List.append_cancel_left (hnew.symm.trans hnew')
      rw [hfold, hu, carrier.visitor_with]
      rfl

/-- A step and then the rest of the loop. -/
theorem Replays.then {carrier' : Carrier S' ν} {g : S Unit → Except ε (S' Unit)}
    {f : S σ → Except ε (S' σ)} (h : Replays carrier visit s x y)
    (hrest : ∀ u, Agrees carrier' visit (carrier.calls u) (carrier.visitor u)
      (g (carrier.withVisitor u ())) (f u)) :
    Agrees carrier' visit (carrier.calls s) (carrier.visitor s) (x >>= g) (y >>= f) := by
  have hstart : ∀ (t : S Unit) (v : σ), carrier.withVisitor (carrier.withVisitor t v) () = t := by
    intro t v
    rw [carrier.with_with]
    exact carrier.with_visitor t
  cases h with
  | error error => exact ⟨nofun, fun _ => ⟨nofun, nofun⟩⟩
  | calls t new hnew =>
    have hagrees : ∀ v, Agrees carrier' visit (carrier.calls t) v (g t)
        (f (carrier.withVisitor t v)) := by
      intro v
      have hrest := hrest (carrier.withVisitor t v)
      rwa [carrier.calls_with, carrier.visitor_with, hstart] at hrest
    constructor
    · intro t' hg
      obtain ⟨more, hmore⟩ := (hagrees (carrier.visitor s)).grows t' hg
      exact ⟨new ++ more, by rw [hmore, hnew, List.append_assoc]⟩
    · intro u
      constructor
      · intro hok
        obtain ⟨u', hu', hf⟩ := of_bind hok
        cases hfold : new.foldlM visit (carrier.visitor s) with
        | error error =>
          rw [hfold] at hu'
          cases hu'
        | ok v =>
          rw [hfold] at hu'
          obtain rfl := Except.ok.inj hu'
          obtain ⟨t', hg, more, hmore, hfold', hu⟩ := ((hagrees v).ok_iff u).mp hf
          refine ⟨t', hg, new ++ more, by rw [hmore, hnew, List.append_assoc], ?_, hu⟩
          rw [List.foldlM_append, hfold, ok_bind, hfold']
      · rintro ⟨t', hg, all, hall, hfold, hu⟩
        have hg : g t = .ok t' := hg
        obtain ⟨more, hmore⟩ := (hagrees (carrier.visitor s)).grows t' hg
        obtain rfl : all = new ++ more := by
          rw [hmore, hnew, List.append_assoc] at hall
          exact (List.append_cancel_left hall).symm
        rw [List.foldlM_append] at hfold
        obtain ⟨v, hv, hfold⟩ := of_bind hfold
        rw [hv]
        exact ((hagrees v).ok_iff u).mpr ⟨t', hg, more, hmore, hfold, hu⟩

end Replay
