import SwiftDialect.Proofs.Acceptance

/-!
# Scopes are nested maps

Scopes are opened and closed, symbols are inserted into the innermost one, and names are looked up, in any
order. What comes of it can be said from the symbols that were inserted: each open scope is a *level*, the
list of the symbols inserted into it so far.

Main statement: unless a scope is needed where none is open, every answer is the one that the levels give;
each scope lists its names in the order of their first insertion, each with its latest symbol; and what is
done between opening a scope and closing it leaves no trace (`scopes_refine_nested_maps`).
-/

namespace SwiftDialect

/-! ### Levels -/

/-- The symbol that was inserted last under a name. -/
def latestSymbol? (level : List Symbol) (name : String) : Option Symbol :=
  level.reverse.find? (·.name == name)

/-- The names in the order of their first insertion, each with its latest symbol. -/
def listing (level : List Symbol) : List Symbol :=
  (level.map Symbol.name).eraseDups.filterMap (latestSymbol? level)

theorem latestSymbol?_concat (level : List Symbol) (symbol : Symbol) (name : String) :
    latestSymbol? (level ++ [symbol]) name =
      if symbol.name = name then some symbol else latestSymbol? level name := by
  by_cases h : symbol.name = name <;> simp [latestSymbol?, h]

/-- A symbol is found under its own name. -/
theorem name_of_latestSymbol? {level : List Symbol} {name : String} {symbol : Symbol}
    (h : latestSymbol? level name = some symbol) : symbol.name = name := by
  simpa using List.find?_some h

theorem exists_latestSymbol? {level : List Symbol} {name : String} (h : name ∈ level.map Symbol.name) :
    ∃ symbol, latestSymbol? level name = some symbol := by
  obtain ⟨symbol, hmem, hname⟩ := List.mem_map.1 h
  refine Option.isSome_iff_exists.1 (List.find?_isSome.2 ⟨symbol, List.mem_reverse.2 hmem, ?_⟩)
  simpa using hname

theorem eraseDups_concat (names : List String) (name : String) : (names ++ [name]).eraseDups =
    if name ∈ names then names.eraseDups else names.eraseDups ++ [name] := by
  rw [List.eraseDups_append]
  by_cases h : name ∈ names <;> simp [List.removeAll, List.eraseDups_cons, h]

theorem nodup_eraseDups (names : List String) : names.eraseDups.Nodup := by
  induction names using List.reverseRecOn with
  | nil => exact List.nodup_nil
  | append_singleton names name ih =>
    rw [eraseDups_concat]
    split
    · exact ih
    · next hnew =>
      refine List.nodup_append.2 ⟨ih, List.nodup_singleton name, ?_⟩
      rintro other hother _ hname rfl
      rw [List.mem_singleton.1 hname] at hother
      exact hnew (List.mem_eraseDups.1 hother)

/-- Inserting a symbol where there is one symbol for each of the names. -/
theorem insertInto_filterMap (symbol : Symbol) {f : String → Option Symbol} {names : List String}
    (hnodup : names.Nodup) (hf : ∀ name ∈ names, ∃ s, f name = some s ∧ s.name = name) :
    Mapping.insertInto symbol (names.filterMap f) =
      (if symbol.name ∈ names then names else names ++ [symbol.name]).filterMap
        fun name => if symbol.name = name then some symbol else f name := by
  induction names with
  | nil => simp [Mapping.insertInto]
  | cons name names ih =>
    obtain ⟨hnew, hnames⟩ := List.nodup_cons.1 hnodup
    obtain ⟨⟨s, hs, hname⟩, hrest⟩ := List.forall_mem_cons.1 hf
    rw [List.filterMap_cons_some hs, Mapping.insertInto]
    by_cases heq : symbol.name = name
    · -- the name comes only once, so no later symbol is touched
      have hkeep : names.filterMap (fun other => if symbol.name = other then some symbol else f other) =
          names.filterMap f := by
        refine List.filterMap_congr fun other hother => if_neg ?_
        rintro rfl
        exact hnew (heq ▸ hother)
      simp [hname, heq, ← hkeep]
    · have hne : s.name ≠ symbol.name := fun h => heq (h.symm.trans hname)
      have hmem : symbol.name ∈ name :: names ↔ symbol.name ∈ names := by simp [heq]
      rw [if_neg (by simpa using hne), ih hnames hrest]
      by_cases hin : symbol.name ∈ names <;> simp [hin, heq, hs]

/-- Inserting a symbol keeps the place of its name, and gives a new name the last place. -/
theorem insertInto_listing (level : List Symbol) (symbol : Symbol) :
    Mapping.insertInto symbol (listing level) = listing (level ++ [symbol]) := by
  have hnames : ∀ name ∈ (level.map Symbol.name).eraseDups,
      ∃ s, latestSymbol? level name = some s ∧ s.name = name := by
    intro name hname
    obtain ⟨s, hs⟩ := exists_latestSymbol? (List.mem_eraseDups.1 hname)
    exact ⟨s, hs, name_of_latestSymbol? hs⟩
  rw [listing, insertInto_filterMap symbol (nodup_eraseDups _) hnames, listing, List.map_append,
    List.map_singleton, eraseDups_concat, funext (latestSymbol?_concat level symbol)]
  simp only [List.mem_eraseDups]

/-- The scope into which the symbols were inserted one after the other. -/
def Mapping.ofLevel (level : List Symbol) : Mapping :=
  ⟨listing level⟩

namespace Mapping

theorem insert_ofLevel (level : List Symbol) (symbol : Symbol) :
    ((ofLevel level).insert symbol).2 = ofLevel (level ++ [symbol]) :=
  congrArg Mapping.mk (insertInto_listing level symbol)

/-- A name stands for the symbol that was inserted last under it. -/
theorem get?_ofLevel (level : List Symbol) (name : String) :
    (ofLevel level).get? name = latestSymbol? level name := by
  induction level using List.reverseRecOn with
  | nil => rfl
  | append_singleton level symbol ih => rw [← insert_ofLevel, get?_insert, latestSymbol?_concat, ih]

theorem names_ofLevel (level : List Symbol) :
    (ofLevel level).symbols.map Symbol.name = (level.map Symbol.name).eraseDups := by
  rw [ofLevel, listing, List.map_filterMap]
  refine (List.filterMap_congr fun name hname => ?_).trans List.filterMap_some
  obtain ⟨symbol, hsymbol⟩ := exists_latestSymbol? (List.mem_eraseDups.1 hname)
  rw [hsymbol, Option.map_some, name_of_latestSymbol? hsymbol]

end Mapping

/-! ### Using scopes -/

namespace Scopes

/-- One thing that is done with scopes. -/
inductive Op where
  | push
  | pop
  | insert (symbol : Symbol)
  | lookup (name : String)
  deriving DecidableEq, Repr

/-- What one operation answers. -/
inductive Answer where
  | opened
  | closed (mapping : Mapping)
  | replaced (symbol : Option Symbol)
  | found (symbol : Option Symbol)
  deriving DecidableEq, Repr

/-- Performs one operation. -/
def perform (s : Scopes) : Op → Except Violation (Answer × Scopes)
  | .push => .ok (.opened, s.push)
  | .pop => s.pop.map fun r => (.closed r.1, r.2)
  | .insert symbol => (s.insert symbol).map fun r => (.replaced r.1, r.2)
  | .lookup name => (s.lookup name).map fun symbol => (.found symbol, s)

/-- Performs operations one after the other. -/
def performAll (s : Scopes) : List Op → Except Violation (List Answer × Scopes)
  | [] => .ok ([], s)
  | op :: ops => do
    let first ← s.perform op
    let rest ← first.2.performAll ops
    return (first.1 :: rest.1, rest.2)

theorem performAll_cons {s s₁ s₂ : Scopes} {op : Op} {ops : List Op} {answer : Answer}
    {answers : List Answer} (hop : s.perform op = .ok (answer, s₁))
    (hops : s₁.performAll ops = .ok (answers, s₂)) :
    s.performAll (op :: ops) = .ok (answer :: answers, s₂) := by
  rw [performAll, hop]
  show (s₁.performAll ops >>= _) = _
  rw [hops]
  rfl

theorem exists_of_performAll_cons {s s₂ : Scopes} {op : Op} {ops : List Op} {answers : List Answer}
    (h : s.performAll (op :: ops) = .ok (answers, s₂)) : ∃ answer s₁ rest, answers = answer :: rest ∧
      s.perform op = .ok (answer, s₁) ∧ s₁.performAll ops = .ok (rest, s₂) := by
  rcases hop : s.perform op with v | ⟨answer, s₁⟩
  · rw [performAll, hop] at h
    cases h
  · rcases hops : s₁.performAll ops with v | ⟨rest, s₃⟩
    · rw [performAll, hop] at h
      change (s₁.performAll ops >>= _) = _ at h
      rw [hops] at h
      cases h
    · rw [performAll_cons hop hops] at h
      obtain ⟨rfl, rfl⟩ := Prod.mk.inj (Except.ok.inj h)
      exact ⟨answer, s₁, rest, rfl, rfl, hops⟩

theorem performAll_append {s s₁ s₂ : Scopes} {ops more : List Op} {answers answers' : List Answer}
    (hops : s.performAll ops = .ok (answers, s₁)) (hmore : s₁.performAll more = .ok (answers', s₂)) :
    s.performAll (ops ++ more) = .ok (answers ++ answers', s₂) := by
  induction ops generalizing s answers with
  | nil =>
    obtain ⟨rfl, rfl⟩ := Prod.mk.inj (Except.ok.inj hops)
    exact hmore
  | cons op ops ih =>
    obtain ⟨answer, s', rest, rfl, hop, hrest⟩ := exists_of_performAll_cons hops
    exact performAll_cons hop (ih hrest)

/-! ### What the levels say -/

/-- Can the operations be performed with so many scopes open? All of them but opening a scope need one. -/
def Permitted : Nat → List Op → Prop
  | _, [] => True
  | depth, .push :: ops => Permitted (depth + 1) ops
  | depth, .pop :: ops => 0 < depth ∧ Permitted (depth - 1) ops
  | depth, .insert _ :: ops => 0 < depth ∧ Permitted depth ops
  | depth, .lookup _ :: ops => 0 < depth ∧ Permitted depth ops

/-- The levels after one operation, the innermost first. -/
def levelsAfter (levels : List (List Symbol)) : Op → List (List Symbol)
  | .push => [] :: levels
  | .pop => levels.tail
  | .insert symbol => (levels.headD [] ++ [symbol]) :: levels.tail
  | .lookup _ => levels

/-- What the levels answer to one operation. -/
def answerOf (levels : List (List Symbol)) : Op → Answer
  | .push => .opened
  | .pop => .closed (Mapping.ofLevel (levels.headD []))
  | .insert symbol => .replaced (latestSymbol? (levels.headD []) symbol.name)
  | .lookup name => .found (levels.findSome? (latestSymbol? · name))

/-- What the levels answer to the operations. -/
def answersOf (levels : List (List Symbol)) : List Op → List Answer
  | [] => []
  | op :: ops => answerOf levels op :: answersOf (levelsAfter levels op) ops

/-- The scopes into which the levels were inserted. -/
def ofLevels (levels : List (List Symbol)) : Scopes :=
  ⟨levels.map Mapping.ofLevel⟩

/-- With a scope open, every operation does what the levels say. -/
theorem perform_ofLevels {levels : List (List Symbol)} {op : Op} (h : op = .push ∨ levels ≠ []) :
    (ofLevels levels).perform op = .ok (answerOf levels op, ofLevels (levelsAfter levels op)) := by
  cases levels with
  | nil =>
    obtain rfl := h.resolve_right (· rfl)
    rfl
  | cons level outer =>
    cases op with
    | push => rfl
    | pop => rfl
    | insert symbol =>
      show Except.ok (Answer.replaced ((Mapping.ofLevel level).get? symbol.name),
        (⟨((Mapping.ofLevel level).insert symbol).2 :: outer.map Mapping.ofLevel⟩ : Scopes)) = _
      rw [Mapping.get?_ofLevel, Mapping.insert_ofLevel]
      rfl
    | lookup name =>
      show Except.ok (Answer.found (((level :: outer).map Mapping.ofLevel).findSome? (·.get? name)),
        ofLevels (level :: outer)) = _
      simp only [List.findSome?_map, Function.comp_def, Mapping.get?_ofLevel]
      rfl

/-- Without a scope open, only opening one is possible. -/
theorem perform_ofLevels_nil {op : Op} (h : op ≠ .push) : ∃ v, (ofLevels []).perform op = .error v := by
  cases op with
  | push => exact absurd rfl h
  | _ => exact ⟨_, rfl⟩

theorem permitted_cons {levels : List (List Symbol)} {op : Op} {ops : List Op} :
    Permitted levels.length (op :: ops) ↔
      (op = .push ∨ levels ≠ []) ∧ Permitted (levelsAfter levels op).length ops := by
  cases levels <;> cases op <;> simp [Permitted, levelsAfter]

theorem performAll_ofLevels (ops : List Op) : ∀ {levels : List (List Symbol)},
    Permitted levels.length ops → (ofLevels levels).performAll ops =
      .ok (answersOf levels ops, ofLevels (ops.foldl levelsAfter levels)) := by
  induction ops with
  | nil => exact fun _ => rfl
  | cons op ops ih =>
    intro levels h
    obtain ⟨hop, hops⟩ := permitted_cons.1 h
    exact performAll_cons (perform_ofLevels hop) (ih hops)

theorem performAll_violated (ops : List Op) : ∀ {levels : List (List Symbol)},
    ¬ Permitted levels.length ops → ∃ v, (ofLevels levels).performAll ops = .error v := by
  induction ops with
  | nil => exact fun h => absurd trivial h
  | cons op ops ih =>
    intro levels h
    by_cases hop : op = .push ∨ levels ≠ []
    · obtain ⟨v, hv⟩ := ih fun hops => h (permitted_cons.2 ⟨hop, hops⟩)
      refine ⟨v, ?_⟩
      rw [performAll, perform_ofLevels hop]
      show ((ofLevels (levelsAfter levels op)).performAll ops >>= _) = _
      rw [hv]
      rfl
    · -- no scope is open, and the operation needs one
      obtain ⟨hpush, hlevels⟩ := not_or.1 hop
      obtain rfl := Decidable.not_not.1 hlevels
      obtain ⟨v, hv⟩ := perform_ofLevels_nil hpush
      exact ⟨v, by rw [performAll, hv]; rfl⟩

/-! ### Opening a scope and closing it again -/

/-- Operations that close the scopes they open and no other, and insert these symbols into the scope that
is open around them. -/
inductive Balanced : List Op → List Symbol → Prop
  | nil : Balanced [] []
  | insert {ops : List Op} {own : List Symbol} (symbol : Symbol) :
    Balanced ops own → Balanced (.insert symbol :: ops) (symbol :: own)
  | lookup {ops : List Op} {own : List Symbol} (name : String) :
    Balanced ops own → Balanced (.lookup name :: ops) own
  | nest {inner ops : List Op} {deeper own : List Symbol} :
    Balanced inner deeper → Balanced ops own → Balanced (.push :: (inner ++ .pop :: ops)) own

/-- Such operations add their own symbols to the innermost scope, and leave all others alone. -/
theorem Balanced.performAll {ops : List Op} {own : List Symbol} (h : Balanced ops own) :
    ∀ (level : List Symbol) (outer : List Mapping), ∃ answers,
      Scopes.performAll ⟨Mapping.ofLevel level :: outer⟩ ops =
        .ok (answers, ⟨Mapping.ofLevel (level ++ own) :: outer⟩) := by
  induction h with
  | nil => exact fun level outer => ⟨[], by rw [List.append_nil]; rfl⟩
  | insert symbol h ih =>
    intro level outer
    obtain ⟨answers, hrest⟩ := ih (level ++ [symbol]) outer
    rw [← Mapping.insert_ofLevel, List.append_assoc, List.singleton_append] at hrest
    exact ⟨_, performAll_cons rfl hrest⟩
  | lookup name h ih =>
    intro level outer
    obtain ⟨answers, hrest⟩ := ih level outer
    exact ⟨_, performAll_cons rfl hrest⟩
  | nest hinner hops ihinner ihops =>
    intro level outer
    -- the inner scope starts empty and is gone when it closes
    obtain ⟨inside, hinside⟩ := ihinner [] (Mapping.ofLevel level :: outer)
    obtain ⟨behind, hbehind⟩ := ihops level outer
    exact ⟨_, performAll_cons rfl (performAll_append hinside (performAll_cons rfl hbehind))⟩

/-- Scopes are nested maps. Operations can be performed unless one of them needs a scope where none is open.
Each answer is the one that the levels give: a name means the symbol inserted last under it in the innermost
level that has it, and inserting a symbol gives back the one that is replaced. Each scope has one symbol for
each of its names, in the order of their first insertion. Opening a scope, whatever is done in it, and
closing it again leaves the scopes as they were, and closing it gives back what was inserted into it. -/
theorem scopes_refine_nested_maps :
    (∀ ops : List Op,
      (Permitted 0 ops → performAll {} ops = .ok (answersOf [] ops, ofLevels (ops.foldl levelsAfter []))) ∧
      (¬ Permitted 0 ops → ∃ v, performAll {} ops = .error v)) ∧
    (∀ level : List Symbol,
      (Mapping.ofLevel level).symbols.map Symbol.name = (level.map Symbol.name).eraseDups ∧
      ((Mapping.ofLevel level).symbols.map Symbol.name).Nodup ∧
      ∀ name symbol, (Mapping.ofLevel level).get? name = some symbol ↔
        symbol.name = name ∧ latestSymbol? level name = some symbol) ∧
    ∀ (body : List Op) (own : List Symbol), Balanced body own → ∀ scopes : Scopes, ∃ answers,
      scopes.performAll (.push :: (body ++ [.pop])) =
        .ok (.opened :: (answers ++ [.closed (Mapping.ofLevel own)]), scopes) := by
  refine ⟨fun ops => ⟨@performAll_ofLevels ops [], @performAll_violated ops []⟩,
    fun level => ⟨?_, ?_, ?_⟩, ?_⟩
  · exact Mapping.names_ofLevel level
  · rw [Mapping.names_ofLevel]
    exact nodup_eraseDups _
  · intro name symbol
    rw [Mapping.get?_ofLevel]
    exact ⟨fun h => ⟨name_of_latestSymbol? h, h⟩, And.right⟩
  · intro body own hbody scopes
    obtain ⟨answers, hinside⟩ := hbody.performAll [] scopes.mappings
    exact ⟨answers, performAll_cons rfl (performAll_append hinside rfl)⟩

/-- Symbols are inserted around a scope that is opened and closed, and a name is looked up in between. -/
def insertingAround (x y : Symbol) : List Op :=
  [.insert x, .push, .insert y, .pop, .lookup x.name, .insert y]

/-- A name is declared again, and then shadowed in an inner scope that is closed afterwards. -/
theorem scopes_refine_shadowed_maps :
    Permitted 0 [.push, .insert ⟨"x", .var, none⟩, .insert ⟨"y", .var, none⟩,
      .insert ⟨"x", .typename, none⟩, .lookup "x"] ∧
    (performAll {} [.push, .insert ⟨"x", .var, none⟩, .insert ⟨"y", .var, none⟩,
        .insert ⟨"x", .typename, none⟩, .lookup "x"]).map Prod.fst =
      .ok [.opened, .replaced none, .replaced none, .replaced (some ⟨"x", .var, none⟩),
        .found (some ⟨"x", .typename, none⟩)] ∧
    Balanced (insertingAround ⟨"x", .typename, none⟩ ⟨"y", .var, none⟩)
      [⟨"x", .typename, none⟩, ⟨"y", .var, none⟩] ∧
    ∃ answers, performAll ⟨[⟨[⟨"x", .var, none⟩]⟩]⟩
        (.push :: (insertingAround ⟨"x", .typename, none⟩ ⟨"y", .var, none⟩ ++ [.pop])) =
      .ok (.opened :: (answers ++ [.closed ⟨[⟨"x", .typename, none⟩, ⟨"y", .var, none⟩]⟩]),
        ⟨[⟨[⟨"x", .var, none⟩]⟩]⟩) := by
  have hpermitted : Permitted 0 [.push, .insert ⟨"x", .var, none⟩, .insert ⟨"y", .var, none⟩,
      .insert ⟨"x", .typename, none⟩, .lookup "x"] := by
    simp [Permitted]
  have hbody : Balanced (insertingAround ⟨"x", .typename, none⟩ ⟨"y", .var, none⟩)
      [⟨"x", .typename, none⟩, ⟨"y", .var, none⟩] :=
    .insert _ (.nest (.insert _ .nil) (.lookup _ (.insert _ .nil)))
  obtain ⟨hrun, -, hnested⟩ := scopes_refine_nested_maps
  refine ⟨hpermitted, ?_, hbody, hnested _ _ hbody _⟩
  rw [(hrun _).1 hpermitted]
  decide

end Scopes

end SwiftDialect
