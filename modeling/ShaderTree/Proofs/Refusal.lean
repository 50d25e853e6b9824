import ShaderTree.Proofs.Clauses

namespace ShaderTree

namespace Issue

theorem outOfRange?_eq_some_iff {issue : Issue} {v : Variable} {available : Nat} :
    issue.outOfRange? = some (v, available) ↔ ∃ func, issue = outOfRange func v available := by
  cases issue <;> simp [outOfRange?, and_comm]

theorem findSome?_outOfRange?_eq_some {issues : List Issue} {v : Variable} {available : Nat}
    (h : issues.findSome? outOfRange? = some (v, available)) :
    ∃ before func after, issues = before ++ outOfRange func v available :: after ∧
      ∀ func' v' available', outOfRange func' v' available' ∉ before := by
  obtain ⟨before, issue, after, rfl, hissue, hbefore⟩ := List.findSome?_eq_some_iff.mp h
  obtain ⟨func, rfl⟩ := outOfRange?_eq_some_iff.mp hissue
  refine ⟨before, func, after, rfl, fun func' v' available' hm => ?_⟩
  cases hbefore _ hm

theorem findSome?_outOfRange?_eq_none {issues : List Issue} :
    issues.findSome? outOfRange? = none ↔
      ∀ func v available, outOfRange func v available ∉ issues := by
  rw [List.findSome?_eq_none_iff]
  constructor
  · intro h func v available hm
    cases h _ hm
  · intro h issue hm
    cases issue with
    | outOfRange func v available => exact absurd hm (h func v available)
    | _ => rfl

end Issue

namespace Program

theorem render_of_first {p : Program} {v : Variable} {available : Nat}
    (h : p.issues.findSome? Issue.outOfRange? = some (v, available)) :
    p.render = .error (.outOfRange v available) := by
  rw [render_eq, Glsl.unlessRefused, h]

theorem render_of_none {p : Program} (h : p.issues.findSome? Issue.outOfRange? = none) :
    p.render = .ok (Glsl.text p.clauses) :=
  render_ok_iff.mpr ⟨h, rfl⟩

theorem render_of_issues {p : Program} (h : p.issues = []) :
    p.render = .ok (Glsl.text p.clauses) :=
  render_of_none (by rw [h]; rfl)

/-- A program is refused exactly if the checker finds a variable out of range, and the refusal is
that of the first one the checker lists. A program without issues is rendered. -/
theorem render_refuses_first_outOfRange (p : Program) :
    ((∃ e, p.render = .error e) ↔ ∃ func v available, .outOfRange func v available ∈ p.issues) ∧
    (∀ e, p.render = .error e →
      ∃ before func v available after,
        p.issues = before ++ .outOfRange func v available :: after ∧
        (∀ func' v' available', .outOfRange func' v' available' ∉ before) ∧
        e = .outOfRange v available ∧
        e.message = "variable " ++ v.text ++ " (" ++ v.glslName ++ ") is out of range: " ++
          toString available ++ " available") ∧
    (p.issues = [] → ∃ text, p.render = .ok text) := by
  cases hfirst : p.issues.findSome? Issue.outOfRange? with
  | some r =>
    obtain ⟨v, available⟩ := r
    have herror := render_of_first hfirst
    obtain ⟨before, func, after, hissues, hbefore⟩ := Issue.findSome?_outOfRange?_eq_some hfirst
    refine ⟨⟨fun _ => ⟨func, v, available, by simp [hissues]⟩, fun _ => ⟨_, herror⟩⟩, ?_, ?_⟩
    · intro e he
      obtain rfl : .outOfRange v available = e := Except.error.inj (herror.symm.trans he)
      exact ⟨before, func, v, available, after, hissues, hbefore, rfl, rfl⟩
    · intro hempty
      simp [hempty] at hfirst
  | none =>
    have hok := render_of_none hfirst
    have hnone := Issue.findSome?_outOfRange?_eq_none.mp hfirst
    refine ⟨⟨?_, ?_⟩, ?_, fun _ => ⟨_, hok⟩⟩
    · rintro ⟨e, he⟩
      cases hok.symm.trans he
    · rintro ⟨func, v, available, hm⟩
      exact absurd hm (hnone func v available)
    · intro e he
      cases hok.symm.trans he

def withoutUniforms : Program where
  funcs := [{ name := "f", body := ⟨[], [.assign (.var ⟨.uniform, 0⟩) (.num .infinity)]⟩ }]

theorem withoutUniforms_refused :
    (∃ e, withoutUniforms.render = .error e) ∧ ∃ text, Program.render {} = .ok text :=
  ⟨(render_refuses_first_outOfRange withoutUniforms).1.mpr ⟨"f", ⟨.uniform, 0⟩, 0, by decide⟩,
    (render_refuses_first_outOfRange {}).2.2 rfl⟩

end Program

end ShaderTree
