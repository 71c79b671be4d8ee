import SwiftDialect.Proofs.Reachable

/-!
# Messages without open holes

Every problem has its entry in the catalogue under its code, and the values that it brings are those for the
holes in the template of that entry, in order. So no hole is left open in a message.

Main statement: what is reported of a problem is registered (`Problem.registered`).
-/

namespace SwiftDialect

namespace Template

/-- Fills the rest of a template as `fillFrom` does, but gives up at a hole that no parameter names. -/
def fillFrom? (params : Params) : Option (List Char) → List Char → Option (List Char)
  | none, [] => some []
  | none, c :: rest =>
    if c = '{' then fillFrom? params (some []) rest else (fillFrom? params none rest).map (c :: ·)
  | some name, [] => some ('{' :: name.reverse)
  | some name, c :: rest =>
    if c = '}' then
      match params.find? (·.1.toList == name.reverse) with
      | some (_, value) => (fillFrom? params none rest).map (value.toList ++ ·)
      | none => none
    else fillFrom? params (some (c :: name)) rest

/-- Fills the holes of a template, unless one of them is named by no parameter. -/
def fill? (params : Params) (template : String) : Option String :=
  (fillFrom? params none template.toList).map String.ofList

/-- The names of the holes in the rest of a template, in order. -/
def holesFrom : Option (List Char) → List Char → List (List Char)
  | none, [] => []
  | none, c :: rest => if c = '{' then holesFrom (some []) rest else holesFrom none rest
  | some _, [] => []
  | some name, c :: rest =>
    if c = '}' then name.reverse :: holesFrom none rest else holesFrom (some (c :: name)) rest

/-- A template whose holes are all named is filled. -/
theorem fillFrom?_eq {params : Params} (inside : Option (List Char)) (rest : List Char)
    (h : ∀ name ∈ holesFrom inside rest, name ∈ params.map (·.1.toList)) :
    fillFrom? params inside rest = some (fillFrom params inside rest) := by
  fun_induction holesFrom inside rest with
  | case1 => rfl
  | case2 rest ih => simpa [fillFrom?, fillFrom] using ih h
  | case3 c rest hc ih => simp [fillFrom?, fillFrom, hc, ih h]
  | case4 name => rfl
  | case5 name rest ih =>
    obtain ⟨hname, hrest⟩ := List.forall_mem_cons.1 h
    obtain ⟨param, hparam, heq⟩ := List.mem_map.1 hname
    obtain ⟨found, hfound⟩ : ∃ found, params.find? (·.1.toList == name.reverse) = some found := by
      rw [← Option.isSome_iff_exists, List.find?_isSome]
      exact ⟨param, hparam, beq_iff_eq.2 heq⟩
    simp [fillFrom?, fillFrom, hole, hfound, ih hrest]
  | case6 name c rest hc ih => simp [fillFrom?, fillFrom, hc, ih h]

end Template

/-- The diagnostic is what is reported of a problem. The problem has its entry under the code, and its own
values fill all holes in the template of the entry. -/
def Diagnostic.Registered (d : Diagnostic) : Prop :=
  ∃ (pr : Problem) (place? : Option Location), d = { pr.draft with location := place? }.build ∧
    Entry.find? d.code = some pr.entry ∧ d.severity = pr.entry.severity ∧
    Template.fill? pr.params pr.entry.template = some d.message

namespace Problem

theorem find?_code (pr : Problem) : Entry.find? pr.entry.code = some pr.entry := by
  cases pr <;> rfl

/-- A problem brings a value for each hole in the template of its entry. -/
theorem holesFrom_template (pr : Problem) :
    Template.holesFrom none pr.entry.template.toList = pr.params.map (·.1.toList) := by
  cases pr <;> simp only [params, entry, List.map_cons, List.map_nil] <;> decide +kernel

/-- The values that a problem brings leave no hole open. -/
theorem fill?_template (pr : Problem) :
    Template.fill? pr.params pr.entry.template = some pr.draft.build.message := by
  have hnamed : ∀ name ∈ Template.holesFrom none pr.entry.template.toList,
      name ∈ pr.params.map (·.1.toList) := by
    rw [pr.holesFrom_template]
    exact fun _ hname => hname
  rw [Template.fill?, Template.fillFrom?_eq none _ hnamed]
  rfl

/-- What is reported of a problem is registered, with or without a place. -/
theorem registered (pr : Problem) (place? : Option Location) :
    ({ pr.draft with location := place? }.build).Registered :=
  ⟨pr, place?, rfl, pr.find?_code, rfl, pr.fill?_template⟩

end Problem

end SwiftDialect
