import SwiftDialect.Proofs.Reachable

/-!
# Counters within their range

A new line starts past every handle given out, so the bases in a line table are in order, and a handle can be
looked up by counting the bases that are not beyond it. The counters of a scanner stick at their limit, and
columns and lines count from one.

Main statements: whatever a scanner does, it and its line table stay sound (`Scanner.Reaches.sound`), and
looking up a handle in a sound table needs no index and no number out of range (`LineTable.Sound.looksUp`).
-/

namespace SwiftDialect

universe u

/-- The lines start in order, from the first handle on and within those given out, and each belongs to a
file of the table. -/
structure LineTable.Sound (t : LineTable) : Prop where
  /-- The newest line comes first. -/
  sorted : t.starts.Pairwise fun newer older => older.base ≤ newer.base
  bounds : ∀ start ∈ t.starts, 1 ≤ start.base ∧ start.base ≤ t.highest
  /-- The oldest line starts at the first handle. -/
  oldest : (t.starts.getLast?.map LineStart.base).getD 1 = 1
  unused : t.starts = [] → t.highest = 0
  highest_le : t.highest ≤ counterLimit
  files : ∀ start ∈ t.starts, start.file < t.files.length

namespace LineTable

variable {t : LineTable}

theorem sound_empty : empty.Sound :=
  ⟨.nil, fun _ h => absurd h List.not_mem_nil, rfl, fun _ => rfl, Nat.zero_le _,
    fun _ h => absurd h List.not_mem_nil⟩

/-- A line that starts before any file was entered brings a file with it. -/
theorem files_startLine (t : LineTable) (line : Nat) :
    (t.startLine line).files = if t.files.isEmpty then [anonymousFile] else t.files := rfl

theorem files_startLine_of_ne_nil (h : t.files ≠ []) (line : Nat) : (t.startLine line).files = t.files := by
  rw [files_startLine, if_neg (by simpa using h)]

theorem length_files_startLine (t : LineTable) (line : Nat) :
    t.files.length ≤ (t.startLine line).files.length ∧ 0 < (t.startLine line).files.length := by
  rw [files_startLine]
  cases t.files <;> simp

theorem Sound.startLine (h : t.Sound) (line : Nat) : (t.startLine line).Sound := by
  have hle := h.highest_le
  have hbase : stickyAdd t.highest 1 = min (t.highest + 1) counterLimit := rfl
  have hlimit : counterLimit = 4294967295 := rfl
  refine ⟨?_, ?_, ?_, nofun, by simp only [LineTable.startLine]; omega, ?_⟩
  · -- the new line starts beyond the highest handle, and no line starts beyond that
    refine List.pairwise_cons.2 ⟨fun older holder => ?_, h.sorted⟩
    have hbounds := h.bounds older holder
    show older.base ≤ stickyAdd t.highest 1
    omega
  · rintro start hstart
    rcases List.mem_cons.1 hstart with rfl | hstart
    · simp only [LineTable.startLine]
      omega
    · have hbounds := h.bounds start hstart
      simp only [LineTable.startLine]
      omega
  · -- the oldest line stays the oldest, unless this is the first
    cases hstarts : t.starts with
    | nil => simp [LineTable.startLine, hstarts, h.unused hstarts, stickyAdd, counterLimit]
    | cons start rest =>
      have holdest := h.oldest
      rw [hstarts] at holdest
      simpa [LineTable.startLine, hstarts] using holdest
  · obtain ⟨hmore, hpos⟩ := t.length_files_startLine line
    rintro start hstart
    rcases List.mem_cons.1 hstart with rfl | hstart
    · exact Nat.sub_one_lt (Nat.ne_of_gt hpos)
    · exact Nat.lt_of_lt_of_le (h.files start hstart) hmore

theorem Sound.enterFile (h : t.Sound) (name : String) : (t.enterFile name).Sound := by
  have hentered : { t with files := t.files ++ [name] }.Sound := by
    refine ⟨h.sorted, h.bounds, h.oldest, h.unused, h.highest_le, fun start hstart => ?_⟩
    rw [List.length_append]
    exact Nat.lt_add_right _ (h.files start hstart)
  exact hentered.startLine 1

/-- Giving out a handle on a line that has started. -/
theorem Sound.locate (h : t.Sound) (hstarts : t.starts ≠ []) (column : Nat) :
    (t.locate column).2.Sound ∧ (t.locate column).2.starts = t.starts ∧
      (t.locate column).2.files = t.files := by
  obtain ⟨current, rest, heq⟩ := List.exists_cons_of_ne_nil hstarts
  have hlimit : stickyAdd current.base (column - 1) ≤ counterLimit := Nat.min_le_right _ _
  have hlocate : (t.locate column).2 =
      { t with highest := max t.highest (stickyAdd current.base (column - 1)) } := by
    simp only [LineTable.locate, heq]
  rw [hlocate]
  refine ⟨⟨h.sorted, fun start hstart => ?_, h.oldest, fun hnil => absurd hnil hstarts, ?_, h.files⟩,
    rfl, rfl⟩
  · have hbounds := h.bounds start hstart
    exact ⟨hbounds.1, Nat.le_trans hbounds.2 (Nat.le_max_left _ _)⟩
  · exact Nat.max_le.2 ⟨h.highest_le, hlimit⟩

end LineTable

/-! ### Looking up a handle -/

/-- In a list in which every item after one that passes the test passes it too, the first such item is found
by counting them from the other end. -/
theorem getElem?_reverse_countP {α : Type} {p : α → Bool} {xs : List α}
    (h : xs.Pairwise fun x y => p x → p y) (hpos : 0 < xs.countP p) :
    xs.reverse[xs.countP p - 1]? = xs.find? p := by
  induction xs with
  | nil => exact absurd hpos (Nat.lt_irrefl 0)
  | cons x xs ih =>
    obtain ⟨hx, hxs⟩ := List.pairwise_cons.1 h
    by_cases hp : p x
    · -- once an item passes, all after it do
      have hall : xs.countP p = xs.length := List.countP_eq_length.2 fun y hy => hx y hy hp
      simp [hp, hall]
    · rw [List.countP_cons_of_neg hp] at hpos ⊢
      have hlt : xs.countP p - 1 < xs.reverse.length := by
        have hle := List.countP_le_length (p := p) (l := xs)
        rw [List.length_reverse]
        omega
      rw [List.reverse_cons, List.getElem?_append_left hlt, ih hxs hpos, List.find?_cons_of_neg hp]

/-- The handle is found in the lines, the oldest first, at the place before the first base beyond it. The
file of that line is one of the files, and the column is a number within the limit. -/
def LineTable.LooksUp (t : LineTable) (l : Location) : Prop :=
  ∃ start file, 0 < t.starts.countP (·.base ≤ l.handle) ∧
    t.starts.reverse[t.starts.countP (·.base ≤ l.handle) - 1]? = some start ∧
    t.files[start.file]? = some file ∧
    start.base ≤ l.handle ∧ l.handle - start.base + 1 ≤ counterLimit ∧
    t.expand l = some ⟨file, start.line, l.handle - start.base + 1⟩

/-- What a handle is expanded to if its line and the file of that line are found. -/
theorem LineTable.expand_eq {t : LineTable} {l : Location} {start : LineStart} {file : String}
    (hknown : l.isUnknown = false) (hfound : t.starts.find? (·.base ≤ l.handle) = some start)
    (hfile : t.files[start.file]? = some file) :
    t.expand l = some ⟨file, start.line, l.handle - start.base + 1⟩ := by
  rw [expand, hknown, hfound, Option.bind_some, hfile]
  rfl

/-- Every known handle within the limit can be looked up. -/
theorem LineTable.Sound.looksUp {t : LineTable} (h : t.Sound) (hstarts : t.starts ≠ []) {l : Location}
    (hknown : l.isUnknown = false) (hlimit : l.handle ≤ counterLimit) : t.LooksUp l := by
  have hpos : 1 ≤ l.handle := by
    rcases Nat.eq_zero_or_pos l.handle with hzero | hpos
    · simp [Location.isUnknown, hzero] at hknown
    · exact hpos
  -- the oldest line starts at the first handle, so it is not beyond this one
  have hcount : 0 < t.starts.countP (·.base ≤ l.handle) := by
    have holdest := h.oldest
    rw [List.getLast?_eq_some_getLast hstarts] at holdest
    refine List.countP_pos_iff.2 ⟨t.starts.getLast hstarts, List.getLast_mem hstarts, ?_⟩
    simp only [Option.map_some, Option.getD_some] at holdest
    simpa [holdest] using hpos
  have hindex := getElem?_reverse_countP (p := fun start => decide (start.base ≤ l.handle))
    (h.sorted.imp fun hle hbase => by
      simp only [decide_eq_true_eq] at hbase ⊢
      exact Nat.le_trans hle hbase) hcount
  obtain ⟨start, hfound⟩ : ∃ start, t.starts.find? (·.base ≤ l.handle) = some start := by
    rw [← Option.isSome_iff_exists, List.find?_isSome]
    exact List.countP_pos_iff.1 hcount
  have hbase : start.base ≤ l.handle := by simpa using List.find?_some hfound
  have hmem := List.mem_of_find?_eq_some hfound
  have hbounds := h.bounds start hmem
  have hfile : t.files[start.file]? = some (t.files.get ⟨start.file, h.files start hmem⟩) :=
    List.getElem?_eq_getElem _
  exact ⟨start, _, hcount, hindex.trans hfound, hfile, hbase, by omega,
    LineTable.expand_eq hknown hfound hfile⟩

/-! ### The states of a scanner -/

/-- The counters are in range, and the lines are those of the unit called `name`. -/
structure Scanner.Sound {σ : Type u} (name : String) (s : Scanner σ) : Prop where
  lines : s.lines.Sound
  started : s.lines.starts ≠ []
  files : s.lines.files = [name]
  starts : ∀ start ∈ s.lines.starts, 1 ≤ start.line ∧ start.line ≤ s.line
  line : 1 ≤ s.line ∧ s.line ≤ counterLimit
  column : 1 ≤ s.column ∧ s.column ≤ counterLimit

namespace Scanner

variable {σ : Type u} {name : String}

theorem sound_start (name : String) (source : σ) (tabWidth : Nat) (journal : Journal) :
    (start name source tabWidth journal).Sound name := by
  have hone : 1 ≤ 1 ∧ 1 ≤ counterLimit := by decide
  refine ⟨LineTable.sound_empty.enterFile name, List.cons_ne_nil _ _, rfl, ?_, hone, hone⟩
  rintro first hfirst
  obtain rfl := List.mem_singleton.1 hfirst
  exact ⟨Nat.le_refl _, Nat.le_refl _⟩

/-- Whatever a scanner does keeps it sound. -/
theorem Reaches.sound [CharSource σ] {E : Event → Prop} {s s' : Scanner σ} (h : s.Reaches E s')
    (hs : s.Sound name) : s'.Sound name := by
  have hlimit : counterLimit = 4294967295 := rfl
  induction h with
  | refl => exact hs
  | chars _ _ ih => exact ⟨ih.1, ih.2, ih.3, ih.4, ih.5, ih.6⟩
  | record _ _ ih => exact ⟨ih.1, ih.2, ih.3, ih.4, ih.5, ih.6⟩
  | @here s' _ ih =>
    obtain ⟨hlines, hstarts, hfiles⟩ := ih.lines.locate ih.started s'.column
    refine ⟨hlines, ?_, hfiles.trans ih.files, ?_, ih.line, ih.column⟩
    · exact fun hnil => ih.started (hstarts.symm.trans hnil)
    · exact fun start hstart => ih.starts start (hstarts ▸ hstart)
  | @advance n s' _ ih =>
    refine ⟨ih.1, ih.2, ih.3, ih.4, ih.5, ?_⟩
    have hcolumn := ih.column
    simp only [Scanner.advance, stickyAdd]
    omega
  | @newLine s' _ ih =>
    have hline := ih.line
    have hnext : stickyAdd s'.line 1 = min (s'.line + 1) counterLimit := rfl
    -- the file has been entered before, so the new line belongs to it
    have hfiles : (s'.lines.startLine (stickyAdd s'.line 1)).files = [name] := by
      rw [LineTable.files_startLine_of_ne_nil (by rw [ih.files]; exact List.cons_ne_nil _ _), ih.files]
    refine ⟨ih.lines.startLine _, List.cons_ne_nil _ _, hfiles, ?_, ?_, ?_⟩
    · rintro start hstart
      rcases List.mem_cons.1 hstart with rfl | hstart
      · refine ⟨?_, Nat.le_refl _⟩
        simp only
        omega
      · obtain ⟨hpos, hle⟩ := ih.starts start hstart
        refine ⟨hpos, ?_⟩
        simp only [Scanner.newLine]
        omega
    · simp only [Scanner.newLine]
      omega
    · simp only [Scanner.newLine]
      omega

end Scanner

end SwiftDialect
