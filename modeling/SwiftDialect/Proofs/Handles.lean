import SwiftDialect.Proofs.Bounds

/-!
# Handles keep their meaning

A line table is asked to enter files, to start lines and to give out handles, in any order. The handles that
were given out on the way are kept together with what they stood for when they were given out. As long as
the handles have not run out, a later request never changes what an earlier handle stands for: a new line
starts beyond all handles, so it is passed by when one of them is looked up.

Main statement: what holds of a line table and its handles after any requests (`handles_keep_meaning`).
-/

namespace SwiftDialect

/-- What a line table can be asked for. -/
inductive Request where
  | enterFile (name : String)
  | startLine (line : Nat)
  | locate (column : Nat)
  deriving DecidableEq, Repr

/-- The current line after some requests: its file, its number in the file, and how many lines have been
registered with it. -/
structure Standing where
  file : String := LineTable.anonymousFile
  line : Nat := 1
  count : Nat := 0
  deriving DecidableEq, Repr

/-- The current line after one more request. Without a line, a handle starts the first one. -/
def Standing.next (p : Standing) : Request → Standing
  | .enterFile name => ⟨name, 1, p.count + 1⟩
  | .startLine line => { p with line, count := p.count + 1 }
  | .locate _ => { p with count := max p.count 1 }

/-- A handle that was given out, for a column of what was then the current line. -/
structure Issue where
  location : Location
  column : Nat
  standing : Standing
  deriving DecidableEq, Repr

/-- A line table in use: the table, the current line, and the handles given out so far. -/
structure LineRun where
  table : LineTable := .empty
  standing : Standing := {}
  issues : List Issue := []
  deriving DecidableEq, Repr

namespace LineRun

/-- One more request. -/
def step (r : LineRun) (request : Request) : LineRun :=
  let standing := r.standing.next request
  match request with
  | .enterFile name => { r with table := r.table.enterFile name, standing }
  | .startLine line => { r with table := r.table.startLine line, standing }
  | .locate column =>
    let located := r.table.locate column
    { table := located.2, standing, issues := r.issues ++ [⟨located.1, column, standing⟩] }

/-- A fresh line table after some requests. -/
def ofRequests (requests : List Request) : LineRun :=
  requests.foldl step {}

end LineRun

/-! ### Files -/

namespace LineTable

variable {t : LineTable} {i j : Issue}

theorem file_startLine (t : LineTable) (line : Nat) :
    (t.startLine line).file = some (t.file.getD anonymousFile) := by
  by_cases h : t.files = []
  · simp [file, files_startLine, h]
  · simp [file, files_startLine_of_ne_nil h, List.getLast?_eq_some_getLast h]

theorem file_enterFile (t : LineTable) (name : String) : (t.enterFile name).file = some name := by
  have hlast : { t with files := t.files ++ [name] }.file = some name := List.getLast?_concat
  rw [enterFile, file_startLine, hlast]
  rfl

/-- The file that new lines belong to is the last one. -/
theorem getElem?_last (t : LineTable) : t.files[t.files.length - 1]? = t.file :=
  List.getLast?_eq_getElem?.symm

/-- Files stay where they are. -/
theorem getElem?_startLine {k : Nat} {file : String} (h : t.files[k]? = some file) (line : Nat) :
    (t.startLine line).files[k]? = some file := by
  have hne : t.files ≠ [] := by
    intro hnil
    rw [hnil] at h
    cases h
  rwa [files_startLine_of_ne_nil hne]

/-! ### The line of a handle -/

/-- The table still has the line on which the handle was given out, and all newer lines start beyond the
handle. -/
def Explains (t : LineTable) (i : Issue) : Prop :=
  ∃ newer file base older,
    t.starts = newer ++ ⟨file, i.standing.line, base⟩ :: older ∧
      t.files[file]? = some i.standing.file ∧ older.length + 1 = i.standing.count ∧
      i.location.handle = base + (i.column - 1) ∧ i.location.handle ≤ t.highest ∧
      ∀ start ∈ newer, i.location.handle < start.base

theorem Explains.expand (h : t.Explains i) (ht : t.Sound) (hcolumn : 1 ≤ i.column) :
    t.expand i.location = some ⟨i.standing.file, i.standing.line, i.column⟩ := by
  obtain ⟨newer, file, base, older, hstarts, hfile, -, hhandle, -, hnewer⟩ := h
  have hbase : 1 ≤ base := (ht.bounds ⟨file, i.standing.line, base⟩ (by simp [hstarts])).1
  have hknown : i.location.isUnknown = false := beq_eq_false_iff_ne.2 (by omega)
  have hpassed : newer.find? (·.base ≤ i.location.handle) = none :=
    List.find?_eq_none.2 fun start hstart => by simpa using hnewer start hstart
  have hfound : t.starts.find? (·.base ≤ i.location.handle) = some ⟨file, i.standing.line, base⟩ := by
    rw [hstarts, List.find?_append, hpassed, Option.none_or, List.find?_cons_of_pos (by simp [hhandle])]
  have hback : i.location.handle - base + 1 = i.column := by omega
  rw [expand_eq hknown hfound hfile, hback]

/-- The handles of a line registered later are beyond those of a line registered earlier. -/
theorem Explains.lt (hi : t.Explains i) (hj : t.Explains j) (h : i.standing.count < j.standing.count) :
    i.location.handle < j.location.handle := by
  obtain ⟨newer, file, base, older, hstarts, -, hcount, -, -, hnewer⟩ := hi
  obtain ⟨newer', file', base', older', hstarts', -, hcount', hhandle', -, -⟩ := hj
  rw [hstarts] at hstarts'
  -- fewer lines are older than the line of the first handle, so it is older itself
  obtain ⟨more, hsplit⟩ : newer' ++ [⟨file', j.standing.line, base'⟩] <+: newer := by
    refine List.prefix_of_prefix_length_le ⟨older', ?_⟩ ⟨_, hstarts'⟩ ?_
    · simp
    · have hlength := congrArg List.length hstarts'
      simp only [List.length_append, List.length_cons, List.length_nil] at hlength ⊢
      omega
  have hlater := hnewer ⟨file', j.standing.line, base'⟩ (by simp [← hsplit])
  simp only at hlater
  omega

/-- On one line the handles are in the order of their columns. -/
theorem Explains.le_iff (hi : t.Explains i) (hj : t.Explains j)
    (h : i.standing.count = j.standing.count) (hi1 : 1 ≤ i.column) (hj1 : 1 ≤ j.column) :
    i.location.handle ≤ j.location.handle ↔ i.column ≤ j.column := by
  obtain ⟨newer, file, base, older, hstarts, -, hcount, hhandle, -, -⟩ := hi
  obtain ⟨newer', file', base', older', hstarts', -, hcount', hhandle', -, -⟩ := hj
  obtain ⟨-, hsame⟩ := List.append_inj' (hstarts.symm.trans hstarts') (by simp; omega)
  have hbase : base = base' := congrArg LineStart.base (List.cons.inj hsame).1
  omega

/-! ### Later requests -/

/-- A line that starts later does not change what a handle stands for. -/
theorem Explains.startLine (h : t.Explains i) {line : Nat}
    (hroom : (t.startLine line).highest < counterLimit) : (t.startLine line).Explains i := by
  obtain ⟨newer, file, base, older, hstarts, hfile, hcount, hhandle, hle, hnewer⟩ := h
  have hbase : (t.startLine line).highest = min (t.highest + 1) counterLimit := rfl
  refine ⟨⟨(t.startLine line).files.length - 1, line, (t.startLine line).highest⟩ :: newer, file, base,
    older, ?_, getElem?_startLine hfile line, hcount, hhandle, by omega, List.forall_mem_cons.2 ⟨?_, hnewer⟩⟩
  · rw [List.cons_append, ← hstarts]
    rfl
  · simp only
    omega

theorem Explains.enterFile (h : t.Explains i) {name : String}
    (hroom : (t.enterFile name).highest < counterLimit) : (t.enterFile name).Explains i := by
  have hentered : { t with files := t.files ++ [name] }.Explains i := by
    obtain ⟨newer, file, base, older, hstarts, hfile, hrest⟩ := h
    refine ⟨newer, file, base, older, hstarts, ?_, hrest⟩
    rwa [List.getElem?_append_left (List.getElem?_eq_some_iff.1 hfile).1]
  exact hentered.startLine hroom

/-- What giving out a handle does to a table that has a line. -/
theorem locate_of_cons {current : LineStart} {older : List LineStart} (h : t.starts = current :: older)
    (column : Nat) : t.locate column = (⟨stickyAdd current.base (column - 1)⟩,
      { t with highest := max t.highest (stickyAdd current.base (column - 1)) }) := by
  rw [locate, h]

theorem locate_of_nil (h : t.starts = []) (column : Nat) :
    t.locate column = (t.startLine 1).locate column := by
  rw [locate, h]
  rfl

/-- Giving out a handle does not change what another one stands for. -/
theorem Explains.locate (h : t.Explains i) (column : Nat) : (t.locate column).2.Explains i := by
  obtain ⟨newer, file, base, older, hstarts, hfile, hcount, hhandle, hle, hnewer⟩ := h
  obtain ⟨current, rest, hcurrent⟩ : ∃ current rest, t.starts = current :: rest :=
    List.exists_cons_of_ne_nil (by simp [hstarts])
  rw [locate_of_cons hcurrent]
  exact ⟨newer, file, base, older, hstarts, hfile, hcount, hhandle,
    Nat.le_trans hle (Nat.le_max_left _ _), hnewer⟩

end LineTable

/-! ### Runs -/

namespace LineRun

variable {r : LineRun}

/-- The table is sound, its newest line is the current one, and it explains all handles given out unless
they have run out. -/
structure Sound (r : LineRun) : Prop where
  table : r.table.Sound
  file : r.table.file.getD LineTable.anonymousFile = r.standing.file
  count : r.table.starts.length = r.standing.count
  current : ∀ start ∈ r.table.starts.head?,
    r.table.files[start.file]? = some r.standing.file ∧ start.line = r.standing.line
  /-- The line that starts by itself is the first one. -/
  unused : r.table.starts = [] → r.standing.line = 1
  issues : r.table.highest < counterLimit → ∀ i ∈ r.issues, r.table.Explains i

theorem sound_fresh : Sound {} :=
  ⟨LineTable.sound_empty, rfl, rfl, fun _ h => absurd h nofun, fun _ => rfl,
    fun _ _ h => absurd h List.not_mem_nil⟩

theorem Sound.enterFile (h : r.Sound) (name : String) : (r.step (.enterFile name)).Sound := by
  have hfile : (r.table.enterFile name).file = some name := r.table.file_enterFile name
  refine ⟨h.table.enterFile name, congrArg (·.getD LineTable.anonymousFile) hfile,
    congrArg (· + 1) h.count, ?_, nofun, fun hroom i hi => ?_⟩
  · rintro start ⟨⟩
    exact ⟨(r.table.enterFile name).getElem?_last.trans hfile, rfl⟩
  · have hbase : (r.step (.enterFile name)).table.highest = min (r.table.highest + 1) counterLimit := rfl
    exact (h.issues (by omega) i hi).enterFile hroom

theorem Sound.startLine (h : r.Sound) (line : Nat) : (r.step (.startLine line)).Sound := by
  have hfile : (r.table.startLine line).file = some r.standing.file := by
    rw [r.table.file_startLine, h.file]
  refine ⟨h.table.startLine line, congrArg (·.getD LineTable.anonymousFile) hfile,
    congrArg (· + 1) h.count, ?_, nofun, fun hroom i hi => ?_⟩
  · rintro start ⟨⟩
    exact ⟨(r.table.startLine line).getElem?_last.trans hfile, rfl⟩
  · have hbase : (r.step (.startLine line)).table.highest = min (r.table.highest + 1) counterLimit := rfl
    exact (h.issues (by omega) i hi).startLine hroom

/-- Giving out a handle where there is a line. -/
theorem Sound.locate_of_cons (h : r.Sound) {current : LineStart} {older : List LineStart}
    (hstarts : r.table.starts = current :: older) (column : Nat) :
    (r.step (.locate column)).Sound := by
  obtain ⟨hsound, hkeep, hfiles⟩ := h.table.locate (by simp [hstarts]) column
  have hlocate := LineTable.locate_of_cons hstarts column
  have hcount : older.length + 1 = r.standing.count := by rw [← h.count, hstarts, List.length_cons]
  have hone : max r.standing.count 1 = r.standing.count := by omega
  obtain ⟨hcurrentFile, hcurrentLine⟩ := h.current current (by rw [hstarts]; rfl)
  refine ⟨hsound, ?_, ?_, ?_, ?_, fun hroom i hi => ?_⟩
  · exact (congrArg (fun fs => (List.getLast? fs).getD LineTable.anonymousFile) hfiles).trans h.file
  · exact ((congrArg List.length hkeep).trans h.count).trans hone.symm
  · intro start hstart
    show (r.table.locate column).2.files[start.file]? = _ ∧ _
    rw [hfiles]
    exact h.current start (hkeep ▸ hstart)
  · exact fun hnil => h.unused (hkeep.symm.trans hnil)
  · -- as long as the counter is below its limit, the handle is not capped
    have hhighest : (r.step (.locate column)).table.highest =
        max r.table.highest (stickyAdd current.base (column - 1)) := by rw [step, hlocate]
    have hhandle : stickyAdd current.base (column - 1) =
        min (current.base + (column - 1)) counterLimit := rfl
    rcases List.mem_append.1 hi with hi | hi
    · exact (h.issues (by omega) i hi).locate column
    · obtain rfl := List.mem_singleton.1 hi
      refine ⟨[], current.file, current.base, older, ?_, ?_, hcount.trans hone.symm, ?_, ?_,
        fun _ hmem => absurd hmem List.not_mem_nil⟩
      · show (r.table.locate column).2.starts = ⟨current.file, r.standing.line, current.base⟩ :: older
        rw [hkeep, hstarts, ← hcurrentLine]
      · show (r.table.locate column).2.files[current.file]? = some r.standing.file
        rw [hfiles, hcurrentFile]
      · rw [hlocate]
        simp only
        omega
      · rw [hhighest, hlocate]
        exact Nat.le_max_right _ _

theorem Sound.locate (h : r.Sound) (column : Nat) : (r.step (.locate column)).Sound := by
  cases hstarts : r.table.starts with
  | cons current older => exact h.locate_of_cons hstarts column
  | nil =>
    -- the line that starts by itself might as well have been asked for
    have hcount : r.standing.count = 0 := by rw [← h.count, hstarts, List.length_nil]
    have hline := h.unused hstarts
    have hstep : r.step (.locate column) = (r.step (.startLine 1)).step (.locate column) := by
      simp only [step, Standing.next, LineTable.locate_of_nil hstarts, hcount, hline, Nat.zero_add,
        Nat.max_self, Nat.zero_max]
    rw [hstep]
    exact (h.startLine 1).locate_of_cons rfl column

theorem Sound.step (h : r.Sound) (request : Request) : (r.step request).Sound := by
  cases request with
  | enterFile name => exact h.enterFile name
  | startLine line => exact h.startLine line
  | locate column => exact h.locate column

theorem Sound.foldl (requests : List Request) : ∀ {r : LineRun}, r.Sound →
    (requests.foldl LineRun.step r).Sound := by
  induction requests with
  | nil => exact fun h => h
  | cons request requests ih => exact fun h => ih (h.step request)

theorem sound_ofRequests (requests : List Request) : (ofRequests requests).Sound :=
  sound_fresh.foldl requests

end LineRun

/-- Once there is a line, all handles but zero stand for a place. -/
theorem LineTable.Sound.isSome_expand_iff {t : LineTable} (h : t.Sound) (l : Location) :
    (t.expand l).isSome ↔ l.handle ≠ 0 ∧ t.starts ≠ [] := by
  by_cases hstarts : t.starts = []
  · simp [expand, hstarts]
  by_cases hzero : l.handle = 0
  · simp [expand, Location.isUnknown, hzero]
  -- the oldest line starts at the first handle, so the search ends there at the latest
  have holdest : (t.starts.getLast hstarts).base = 1 := by
    simpa [List.getLast?_eq_some_getLast hstarts] using h.oldest
  have hsome : (t.starts.find? (·.base ≤ l.handle)).isSome :=
    List.find?_isSome.2 ⟨_, List.getLast_mem hstarts,
      by simpa [holdest] using Nat.one_le_iff_ne_zero.2 hzero⟩
  obtain ⟨start, hfound⟩ := Option.isSome_iff_exists.1 hsome
  have hfile := List.getElem?_eq_getElem (h.files start (List.mem_of_find?_eq_some hfound))
  rw [expand_eq (beq_eq_false_iff_ne.2 hzero) hfound hfile]
  simp [hzero, hstarts]

/-- Whatever is asked of a fresh line table, its lines start in order, the first one at the first handle
and none beyond the highest handle, so that every known handle can be looked up within the bounds of all
that is involved. As long as handles have not run out, every handle that was given out stands for the
column that it was asked for, on the line that was current then; a line registered later has greater
handles, and on one line they are in the order of their columns. -/
theorem handles_keep_meaning (requests : List Request) :
    ((LineRun.ofRequests requests).table.starts.reverse.Pairwise
        fun older newer => older.base ≤ newer.base) ∧
      (∀ first ∈ (LineRun.ofRequests requests).table.starts.reverse.head?, first.base = 1) ∧
      (∀ start ∈ (LineRun.ofRequests requests).table.starts,
        start.base ≤ (LineRun.ofRequests requests).table.highest) ∧
      (∀ l : Location, l.handle ≤ counterLimit → l.handle ≠ 0 →
        (LineRun.ofRequests requests).table.starts ≠ [] →
          (LineRun.ofRequests requests).table.LooksUp l) ∧
      (∀ l : Location, ((LineRun.ofRequests requests).table.expand l).isSome ↔
        l.handle ≠ 0 ∧ (LineRun.ofRequests requests).table.starts ≠ []) ∧
      ((LineRun.ofRequests requests).table.highest < counterLimit →
        ∀ i ∈ (LineRun.ofRequests requests).issues,
          (1 ≤ i.column → (LineRun.ofRequests requests).table.expand i.location =
            some ⟨i.standing.file, i.standing.line, i.column⟩) ∧
          ∀ j ∈ (LineRun.ofRequests requests).issues,
            (i.standing.count < j.standing.count → i.location.handle < j.location.handle) ∧
            (i.standing.count = j.standing.count → 1 ≤ i.column → 1 ≤ j.column →
              (i.location.handle ≤ j.location.handle ↔ i.column ≤ j.column))) := by
  have h := LineRun.sound_ofRequests requests
  refine ⟨List.pairwise_reverse.2 h.table.sorted, ?_, fun start hstart => (h.table.bounds start hstart).2,
    ?_, h.table.isSome_expand_iff, fun hroom i hi => ⟨fun hcolumn => ?_, fun j hj => ⟨?_, ?_⟩⟩⟩
  · intro first hfirst
    have holdest := h.table.oldest
    rw [List.head?_reverse] at hfirst
    rwa [Option.mem_def.1 hfirst] at holdest
  · exact fun l hlimit hknown hstarts => h.table.looksUp hstarts (beq_eq_false_iff_ne.2 hknown) hlimit
  · exact (h.issues hroom i hi).expand h.table hcolumn
  · exact (h.issues hroom i hi).lt (h.issues hroom j hj)
  · exact (h.issues hroom i hi).le_iff (h.issues hroom j hj)

/-- Three handles, the first one before any line has started and the others on two lines of a file. -/
theorem handles_keep_meaning_two_files :
    (LineRun.ofRequests [.locate 3, .enterFile "a", .locate 9, .startLine 7, .locate 2]).issues =
        [⟨⟨3⟩, 3, ⟨"<input>", 1, 1⟩⟩, ⟨⟨12⟩, 9, ⟨"a", 1, 2⟩⟩, ⟨⟨14⟩, 2, ⟨"a", 7, 3⟩⟩] ∧
      (LineRun.ofRequests [.locate 3, .enterFile "a", .locate 9, .startLine 7, .locate 2]).table.expand
        ⟨12⟩ = some ⟨"a", 1, 9⟩ := by
  obtain ⟨-, -, -, -, -, hkeep⟩ :=
    handles_keep_meaning [.locate 3, .enterFile "a", .locate 9, .startLine 7, .locate 2]
  exact ⟨by decide, (hkeep (by decide) ⟨⟨12⟩, 9, ⟨"a", 1, 2⟩⟩ (by decide)).1 (by decide)⟩

end SwiftDialect
