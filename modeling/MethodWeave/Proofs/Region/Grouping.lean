import MethodWeave.Proofs.Region.Nesting
/-!
Grouping the rows of a table into regions.

Main results: the clauses of regions that follow each other are grouped into these regions
(`group_flatMap`), and the clauses of the regions of a table are its rows, in order, as long as no
handler reaches beyond the range of offsets (`flatMap_group`).
-/

namespace MethodWeave

namespace CodeRegion

/-! ### Rows -/

section

variable {tryStart tryLength start stop : Nat} {kind : ClauseKind}

theorem toNat_ofNat {n : Nat} (h : n < 0x100000000) : (UInt32.ofNat n).toNat = n :=
  UInt32.toNat_ofNat_of_lt' h

theorem row_handlerEnd (hle : start ≤ stop) (hstop : stop < 0x100000000) :
    (row tryStart tryLength kind start stop).handlerEnd = stop := by
  have hstart : (UInt32.ofNat start).toNat = start := toNat_ofNat (by omega)
  have hlength : (UInt32.ofNat (stop - start)).toNat = stop - start :=
    toNat_ofNat (by omega)
  simp only [row, Clause.handlerEnd, Clause.clampedEnd, hstart, hlength]
  omega

/-- A row that ends within the range of offsets is the row of its region. -/
theorem row_of_handlerEnd {c : Clause} (hend : c.handlerEnd < 0xffffffff) :
    row c.tryOffset.toNat c.tryLength.toNat c.kind c.handlerOffset.toNat c.handlerEnd = c := by
  have hlength : c.handlerEnd - c.handlerOffset.toNat = c.handlerLength.toNat := by
    simp only [Clause.handlerEnd, Clause.clampedEnd] at hend ⊢
    omega
  simp [row, hlength]

end

/-- A region as a table can give it: its handlers follow each other, within the range of offsets. -/
structure Chained (r : CodeRegion) : Prop where
  handlers : r.handlers ≠ []
  ordered : r.handlers.Pairwise fun a b => a.2 ≤ b.2
  le_stop : ∀ h ∈ r.handlers, h.2 ≤ r.stop
  tryStart : r.tryStart < 0x100000000
  tryLength : r.tryLength < 0x100000000
  stop : r.stop < 0x100000000

theorem Joined.chained {r : CodeRegion} (h : r.Joined) (hstop : r.stop < 0x100000000) :
    r.Chained := by
  obtain ⟨kind, rest, hhandlers⟩ := h.handlers_eq
  have hspan : r.tryStart + r.tryLength ≤ r.stop :=
    h.le_stop (kind, r.tryStart + r.tryLength) (hhandlers ▸ List.mem_cons_self)
  exact ⟨by rw [hhandlers]; exact List.cons_ne_nil _ _, h.ordered, h.le_stop, by omega, by omega,
    hstop⟩

theorem Tight.chained {r : CodeRegion} (h : r.Tight) (hstop : r.stop < 0x100000000) : r.Chained :=
  h.joined.chained hstop

theorem nextStart_le {stop : Nat} {handlers : List (ClauseKind × Nat)}
    (h : ∀ a ∈ handlers, a.2 ≤ stop) : nextStart stop handlers ≤ stop := by
  cases handlers with
  | nil => exact Nat.le_refl _
  | cons a rest => exact h a List.mem_cons_self

theorem le_nextStart {start stop : Nat} {handlers : List (ClauseKind × Nat)} (hstop : start ≤ stop)
    (h : ∀ a ∈ handlers, start ≤ a.2) : start ≤ nextStart stop handlers := by
  cases handlers with
  | nil => exact hstop
  | cons a rest => exact h a List.mem_cons_self

theorem rows_append (tryStart tryLength stop start : Nat) (kind : ClauseKind)
    (handlers : List (ClauseKind × Nat)) :
    rows tryStart tryLength stop (handlers ++ [(kind, start)]) =
      rows tryStart tryLength start handlers ++ [row tryStart tryLength kind start stop] := by
  induction handlers with
  | nil => rfl
  | cons a handlers ih =>
    have hnext : nextStart stop (handlers ++ [(kind, start)]) = nextStart start handlers := by
      cases handlers <;> rfl
    rw [List.cons_append, rows, hnext, ih, rows, List.cons_append]

/-! ### From regions to rows and back -/

/-- The rows of further handlers go on with the region. -/
theorem groupFrom_rows {tryStart tryLength stop : Nat} (htryStart : tryStart < 0x100000000)
    (htryLength : tryLength < 0x100000000) (hstop : stop < 0x100000000)
    (before rest : List (ClauseKind × Nat)) (hordered : rest.Pairwise fun a b => a.2 ≤ b.2)
    (hle : ∀ h ∈ rest, h.2 ≤ stop) (more : List Clause) :
    groupFrom ⟨tryStart, tryLength, before, nextStart stop rest⟩
        (rows tryStart tryLength stop rest ++ more) =
      groupFrom ⟨tryStart, tryLength, before ++ rest, stop⟩ more := by
  induction rest generalizing before with
  | nil => rw [List.append_nil]; rfl
  | cons a rest ih =>
    obtain ⟨kind, start⟩ := a
    obtain ⟨hfirst, hordered⟩ := List.pairwise_cons.1 hordered
    obtain ⟨hstart, hle⟩ := List.forall_mem_cons.1 hle
    have hword : (UInt32.ofNat start).toNat = start := toNat_ofNat (Nat.lt_of_le_of_lt hstart hstop)
    have hcontinued : continuedBy ⟨tryStart, tryLength, before, nextStart stop ((kind, start) :: rest)⟩
        (row tryStart tryLength kind start (nextStart stop rest)) = true := by
      simp [continuedBy, row, nextStart, toNat_ofNat htryStart, toNat_ofNat htryLength, hword]
    have hextend : extend ⟨tryStart, tryLength, before, nextStart stop ((kind, start) :: rest)⟩
        (row tryStart tryLength kind start (nextStart stop rest)) =
          ⟨tryStart, tryLength, before ++ [(kind, start)], nextStart stop rest⟩ := by
      rw [extend, row_handlerEnd (le_nextStart hstart hfirst)
        (Nat.lt_of_le_of_lt (nextStart_le hle) hstop)]
      simp only [row, hword]
    rw [rows, List.cons_append, groupFrom, if_pos hcontinued, hextend, ih _ hordered hle,
      List.append_assoc, List.singleton_append]

theorem Chained.group_clauses_append {r : CodeRegion} (hr : r.Chained) (more : List Clause) :
    group (r.clauses ++ more) = groupFrom r more := by
  obtain ⟨tryStart, tryLength, handlers, stop⟩ := r
  cases handlers with
  | nil => exact absurd rfl hr.handlers
  | cons a rest =>
    obtain ⟨kind, start⟩ := a
    obtain ⟨hfirst, hordered⟩ := List.pairwise_cons.1 hr.ordered
    obtain ⟨hstart, hle⟩ := List.forall_mem_cons.1 hr.le_stop
    have hofClause : ofClause (row tryStart tryLength kind start (nextStart stop rest)) =
        ⟨tryStart, tryLength, [(kind, start)], nextStart stop rest⟩ := by
      rw [ofClause, row_handlerEnd (le_nextStart hstart hfirst)
        (Nat.lt_of_le_of_lt (nextStart_le hle) hr.stop)]
      simp only [row, toNat_ofNat hr.tryStart, toNat_ofNat hr.tryLength,
        toNat_ofNat (Nat.lt_of_le_of_lt hstart hr.stop)]
    rw [clauses, rows, List.cons_append, group, hofClause]
    exact groupFrom_rows hr.tryStart hr.tryLength hr.stop [(kind, start)] rest hordered hle more

/-- Every row of a region names its try block. -/
theorem Chained.tryBlock_of_mem {r : CodeRegion} (hr : r.Chained) {c : Clause}
    (hc : c ∈ r.clauses) : (c.tryOffset.toNat, c.tryLength.toNat) = (r.tryStart, r.tryLength) := by
  obtain ⟨tryStart, tryLength, handlers, stop⟩ := r
  have hrows : ∀ handlers : List (ClauseKind × Nat), c ∈ rows tryStart tryLength stop handlers →
      (c.tryOffset.toNat, c.tryLength.toNat) = (tryStart, tryLength) := by
    intro handlers hc
    induction handlers with
    | nil => cases hc
    | cons a rest ih =>
      rcases List.mem_cons.1 hc with rfl | hc
      · simp only [row, toNat_ofNat hr.tryStart, toNat_ofNat hr.tryLength]
      · exact ih hc
  exact hrows handlers hc

/-- A row of another try block begins a region. -/
theorem groupFrom_of_tryBlock_ne {r r' : CodeRegion} (hr' : r'.Chained)
    (hne : (r.tryStart, r.tryLength) ≠ (r'.tryStart, r'.tryLength)) (more : List Clause) :
    groupFrom r (r'.clauses ++ more) = r :: groupFrom r' more := by
  rw [← hr'.group_clauses_append more]
  cases hclauses : r'.clauses with
  | nil =>
    obtain ⟨a, rest, hhandlers⟩ := List.exists_cons_of_ne_nil hr'.handlers
    rw [clauses, hhandlers] at hclauses
    cases hclauses
  | cons c rest =>
    have htryBlock := hr'.tryBlock_of_mem (hclauses ▸ List.mem_cons_self)
    have hnot : ¬ r.continuedBy c = true := by
      intro hcontinued
      simp only [continuedBy, Bool.and_eq_true, beq_iff_eq] at hcontinued
      exact hne (by rw [hcontinued.1.1, hcontinued.1.2, htryBlock])
    rw [List.cons_append, groupFrom, if_neg hnot, group]

/-- **The clauses of regions that follow each other are grouped into these regions.** -/
theorem group_flatMap {regions : List CodeRegion} (htight : ∀ r ∈ regions, r.Tight)
    (hstop : ∀ r ∈ regions, r.stop < 0x100000000) (hfollows : regions.Pairwise Follows) :
    group (regions.flatMap clauses) = regions := by
  have htail (first : CodeRegion) (regions : List CodeRegion)
      (htight : ∀ r ∈ first :: regions, r.Tight)
      (hstop : ∀ r ∈ first :: regions, r.stop < 0x100000000)
      (hfollows : (first :: regions).Pairwise Follows) :
      groupFrom first (regions.flatMap clauses) = first :: regions := by
    induction regions generalizing first with
    | nil => rfl
    | cons r' regions ih =>
      obtain ⟨hr, htight⟩ := List.forall_mem_cons.1 htight
      obtain ⟨-, hstop⟩ := List.forall_mem_cons.1 hstop
      obtain ⟨hfirst, hfollows⟩ := List.pairwise_cons.1 hfollows
      have hr' := htight r' List.mem_cons_self
      rw [List.flatMap_cons, groupFrom_of_tryBlock_ne (hr'.chained (hstop r' List.mem_cons_self))
        ((hfirst r' List.mem_cons_self).tryBlock_ne hr hr'), ih r' htight hstop hfollows]
  cases regions with
  | nil => rfl
  | cons r regions =>
    rw [List.flatMap_cons, ((htight r List.mem_cons_self).chained
      (hstop r List.mem_cons_self)).group_clauses_append]
    exact htail r regions htight hstop hfollows

/-! ### From rows to regions and back -/

/-- A region read so far shows in the first region that comes out. -/
theorem exists_mem_groupFrom (current : CodeRegion) (table : List Clause) :
    ∃ r ∈ groupFrom current table, (∀ h ∈ current.handlers, h ∈ r.handlers) ∧
      (r.stop = current.stop ∨ ∃ h ∈ r.handlers, h.2 = current.stop) := by
  induction table generalizing current with
  | nil => exact ⟨current, List.mem_singleton_self _, fun _ h => h, Or.inl rfl⟩
  | cons c rest ih =>
    rw [groupFrom]
    split
    · next hcontinued =>
      simp only [continuedBy, Bool.and_eq_true, beq_iff_eq] at hcontinued
      obtain ⟨r, hr, hhandlers, -⟩ := ih (current.extend c)
      refine ⟨r, hr, fun h hh => hhandlers h (List.mem_append_left _ hh), Or.inr
        ⟨(c.kind, c.handlerOffset.toNat), hhandlers _ (List.mem_append_right _ List.mem_cons_self),
          hcontinued.2.symm⟩⟩
    · exact ⟨current, List.mem_cons_self, fun _ h => h, Or.inl rfl⟩

/-- All of a region lies below an offset. -/
def Below (bound : Nat) (r : CodeRegion) : Prop := r.stop < bound ∧ ∀ h ∈ r.handlers, h.2 < bound

/-- If all regions that come out lie below an offset, the one read so far ends below it. -/
theorem stop_lt_of_groupFrom {bound : Nat} {current : CodeRegion} {table : List Clause}
    (h : ∀ r ∈ groupFrom current table, r.Below bound) : current.stop < bound := by
  obtain ⟨r, hr, -, hstop | ⟨a, ha, hstop⟩⟩ := exists_mem_groupFrom current table
  · exact hstop ▸ (h r hr).1
  · exact hstop ▸ (h r hr).2 a ha

theorem ofClause_clauses {c : Clause} (hend : c.handlerEnd < 0xffffffff) :
    (ofClause c).clauses = [c] := by
  simp only [clauses, ofClause, rows, nextStart, List.head?_nil, Option.map_none,
    Option.getD_none, row_of_handlerEnd hend]

theorem extend_clauses {r : CodeRegion} {c : Clause} (hcontinued : r.continuedBy c = true)
    (hend : c.handlerEnd < 0xffffffff) : (r.extend c).clauses = r.clauses ++ [c] := by
  simp only [continuedBy, Bool.and_eq_true, beq_iff_eq] at hcontinued
  obtain ⟨⟨htryStart, htryLength⟩, hstop⟩ := hcontinued
  rw [clauses, extend, rows_append, clauses, hstop, htryStart, htryLength, row_of_handlerEnd hend]

theorem flatMap_groupFrom {current : CodeRegion} {table : List Clause}
    (h : ∀ r ∈ groupFrom current table, r.Below 0xffffffff) :
    (groupFrom current table).flatMap clauses = current.clauses ++ table := by
  induction table generalizing current with
  | nil => simp [groupFrom]
  | cons c rest ih =>
    rw [groupFrom] at h ⊢
    split at h
    · next hcontinued =>
      rw [if_pos hcontinued, ih h, extend_clauses hcontinued (stop_lt_of_groupFrom h),
        List.append_assoc, List.singleton_append]
    · next hcontinued =>
      obtain ⟨-, h⟩ := List.forall_mem_cons.1 h
      rw [if_neg hcontinued, List.flatMap_cons, ih h, ofClause_clauses (stop_lt_of_groupFrom h),
        List.singleton_append]

/-- **The clauses of the regions of a table are its rows.** -/
theorem flatMap_group {table : List Clause} (h : ∀ r ∈ group table, r.Below 0xffffffff) :
    (group table).flatMap clauses = table := by
  cases table with
  | nil => rfl
  | cons c rest =>
    rw [group, flatMap_groupFrom h, ofClause_clauses (stop_lt_of_groupFrom h),
      List.singleton_append]

theorem ofClause_chained (c : Clause) : (ofClause c).Chained where
  handlers := List.cons_ne_nil _ _
  ordered := List.pairwise_singleton _ _
  le_stop := by
    have := c.handlerOffset.toNat_lt
    intro h hh
    rw [List.mem_singleton.1 hh]
    simp only [ofClause, Clause.handlerEnd, Clause.clampedEnd]
    omega
  tryStart := c.tryOffset.toNat_lt
  tryLength := c.tryLength.toNat_lt
  stop := by
    simp only [ofClause, Clause.handlerEnd, Clause.clampedEnd]
    omega

theorem Chained.extend {r : CodeRegion} (hr : r.Chained) {c : Clause}
    (hcontinued : r.continuedBy c = true) : (r.extend c).Chained := by
  simp only [continuedBy, Bool.and_eq_true, beq_iff_eq] at hcontinued
  obtain ⟨-, hstop⟩ := hcontinued
  have hc := ofClause_chained c
  have hend : c.handlerOffset.toNat ≤ c.handlerEnd := hc.le_stop _ List.mem_cons_self
  refine ⟨by simp [CodeRegion.extend], ?_, fun h hh => ?_, hr.tryStart, hr.tryLength, hc.stop⟩
  · refine List.pairwise_append.2 ⟨hr.ordered, List.pairwise_singleton _ _, fun a ha b hb => ?_⟩
    rw [List.mem_singleton.1 hb]
    exact hstop ▸ hr.le_stop a ha
  · rcases List.mem_append.1 hh with hh | hh
    · exact Nat.le_trans (hstop ▸ hr.le_stop h hh) hend
    · rw [List.mem_singleton.1 hh]
      exact hend

theorem chained_of_mem_groupFrom {current : CodeRegion} (hcurrent : current.Chained)
    {table : List Clause} : ∀ r ∈ groupFrom current table, r.Chained := by
  induction table generalizing current with
  | nil =>
    intro r hr
    rw [List.mem_singleton.1 hr]
    exact hcurrent
  | cons c rest ih =>
    rw [groupFrom]
    split
    · next hcontinued => exact ih (hcurrent.extend hcontinued)
    · exact List.forall_mem_cons.2 ⟨hcurrent, ih (ofClause_chained c)⟩

/-- The handlers of a region of a table follow each other. -/
theorem chained_of_mem_group {table : List Clause} : ∀ r ∈ group table, r.Chained := by
  cases table with
  | nil => exact nofun
  | cons c rest => exact chained_of_mem_groupFrom (ofClause_chained c)

/-! ### What the rows of a region say about it -/

variable {r : CodeRegion}

/-- The handlers begin where the rows say. -/
theorem Chained.map_handlerOffset (hr : r.Chained) :
    r.clauses.map (·.handlerOffset.toNat) = r.handlers.map (·.2) := by
  obtain ⟨tryStart, tryLength, handlers, stop⟩ := r
  have hrows : ∀ handlers : List (ClauseKind × Nat), (∀ h ∈ handlers, h.2 < 0x100000000) →
      (rows tryStart tryLength stop handlers).map (·.handlerOffset.toNat) = handlers.map (·.2) := by
    intro handlers hsmall
    induction handlers with
    | nil => rfl
    | cons a rest ih =>
      obtain ⟨ha, hsmall⟩ := List.forall_mem_cons.1 hsmall
      simp only [rows, List.map_cons, ih hsmall, row, toNat_ofNat ha]
  exact hrows handlers fun h hh => Nat.lt_of_le_of_lt (hr.le_stop h hh) hr.stop

/-- No row reaches beyond the region. -/
theorem Chained.handlerEnd_le (hr : r.Chained) : ∀ c ∈ r.clauses, c.handlerEnd ≤ r.stop := by
  obtain ⟨tryStart, tryLength, handlers, stop⟩ := r
  obtain ⟨-, hordered, hle, -, -, hstop⟩ := hr
  simp only [clauses] at hordered hle hstop ⊢
  induction handlers with
  | nil => exact fun c hc => absurd hc List.not_mem_nil
  | cons a rest ih =>
    obtain ⟨hfirst, hordered⟩ := List.pairwise_cons.1 hordered
    obtain ⟨ha, hle⟩ := List.forall_mem_cons.1 hle
    refine List.forall_mem_cons.2 ⟨?_, ih hordered hle⟩
    rw [row_handlerEnd (le_nextStart ha hfirst) (Nat.lt_of_le_of_lt (nextStart_le hle) hstop)]
    exact nextStart_le hle

/-- The last row ends with the region. -/
theorem Chained.exists_handlerEnd (hr : r.Chained) : ∃ c ∈ r.clauses, c.handlerEnd = r.stop := by
  obtain ⟨before, last, hlast⟩ := (List.eq_nil_or_concat r.handlers).resolve_left hr.handlers
  have hle := hr.le_stop last (by rw [hlast]; simp)
  refine ⟨row r.tryStart r.tryLength last.1 last.2 r.stop, ?_, row_handlerEnd hle hr.stop⟩
  rw [clauses, hlast, List.concat_eq_append, rows_append]
  exact List.mem_append_right _ List.mem_cons_self

end CodeRegion

end MethodWeave
