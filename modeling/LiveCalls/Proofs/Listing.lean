import LiveCalls.ScriptFile

namespace LiveCalls

namespace Path

/-- The steps that every path into a folder begins with. -/
def base (root : Path) : List RawText :=
  if root.raw.bytes = [] || root.raw.bytes.getLast? = some slash then root.steps.dropLast
  else root.steps

theorem steps_slash (front back : List UInt8) :
    (Path.mk ⟨front ++ slash :: back⟩).steps =
      (Path.mk ⟨front⟩).steps ++ (Path.mk ⟨back⟩).steps := by
  simp only [steps, List.splitOn_append_cons_self, List.map_append]

theorem steps_eq_base (root : Path) :
    root.steps = root.base ∨ root.steps = root.base ++ [.ofText ""] := by
  obtain ⟨⟨bytes⟩⟩ := root
  unfold base
  split
  · right
    rename_i h
    rcases Bool.or_eq_true_iff.mp h with empty | ends
    · obtain rfl : bytes = [] := of_decide_eq_true empty
      rfl
    · obtain ⟨front, rfl⟩ := List.getLast?_eq_some_iff.mp (of_decide_eq_true ends)
      rw [steps_slash front []]
      simp [steps]
      rfl
  · exact .inl rfl

theorem steps_join (root : Path) {name : RawText} (hn : slash ∉ name.bytes) :
    (root.join ⟨name⟩).steps = root.base ++ [name] := by
  obtain ⟨⟨bytes⟩⟩ := root
  have relative : (Path.mk name).isAbsolute = false := by
    rw [isAbsolute, decide_eq_false_iff_not]
    exact fun h => hn (List.mem_of_mem_head? h)
  have alone : (Path.mk name).steps = [name] := by
    rw [steps, List.splitOn_eq_singleton hn]
    rfl
  unfold join base
  rw [relative, if_neg Bool.false_ne_true]
  split
  · rename_i h
    rcases Bool.or_eq_true_iff.mp h with empty | ends
    · obtain rfl : bytes = [] := of_decide_eq_true empty
      exact alone
    · obtain ⟨front, rfl⟩ := List.getLast?_eq_some_iff.mp (of_decide_eq_true ends)
      rw [List.append_assoc, List.singleton_append, steps_slash front, steps_slash front, alone]
      simp [steps]
  · rw [steps_slash bytes, alone]

/-- A path that ends in a proper name ends in the name of a file. -/
theorem fileName?_of_steps {p : Path} {front : List RawText} {name : RawText}
    (hs : p.steps = front ++ [name]) (nonempty : name ≠ "") (nodot : name ≠ ".")
    (noparent : name ≠ "..") : p.fileName? = some name := by
  have last : p.names.getLast? = some name := by
    rw [names, hs, List.filter_append]
    simp [nonempty, nodot]
  simp [fileName?, last, noparent]

theorem not_isScript_parent {p : Path} {front : List RawText}
    (hs : p.steps = front ++ [.ofText ".."]) : p.isScript = false := by
  have proper : [RawText.ofText ".."].filter
      (fun step : RawText => step ≠ "" && step ≠ ".") = [RawText.ofText ".."] := by decide
  have nameless : p.fileName? = none := by
    rw [fileName?, names, hs, List.filter_append, proper, List.getLast?_concat]
    decide
  rw [isScript, nameless]

end Path

namespace Disk

theorem walk_append (d : Disk) (place xs ys : List RawText) :
    d.walk place (xs ++ ys) = (d.walk place xs).bind fun place => d.walk place ys := by
  induction xs generalizing place with
  | nil => rfl
  | cons x xs ih =>
    simp only [List.cons_append, walk]
    split
    · rfl
    · rfl
    · split
      · exact ih place
      · split
        · exact ih place.tail
        · split
          · rfl
          · exact ih (x :: place)

/-- In a folder the empty name and the name `.` stay where they are. -/
theorem walk_stay {d : Disk} {place : List RawText} (hd : d.node? place = some .folder)
    {step : RawText} (hs : step = "" ∨ step = ".") : d.walk place [step] = .ok place := by
  have stays : (step = "" || step = ".") = true := by simpa using hs
  simp only [walk, hd, stays, if_true]

/-- The steps that a path into a folder begins with lead to the folder. -/
theorem walk_base {d : Disk} {root : Path} {place : List RawText}
    (hr : d.find root = .ok (place, .folder)) :
    d.walk [] root.base = .ok place ∧ d.node? place = some .folder := by
  unfold find at hr
  split at hr
  · cases hr
  · cases hw : d.walk [] root.steps with
    | error absence => simp [hw] at hr
    | ok place' =>
      cases hn : d.node? place' with
      | none => simp [hw, hn] at hr
      | some node =>
        simp only [hw, hn, Except.ok.injEq, Prod.mk.injEq] at hr
        obtain ⟨rfl, rfl⟩ := hr
        refine ⟨?_, hn⟩
        rcases root.steps_eq_base with same | slash
        · rw [← same, hw]
        · rw [slash, walk_append] at hw
          cases hb : d.walk [] root.base with
          | error absence => rw [hb] at hw; cases hw
          | ok front =>
            rw [hb] at hw
            simp only [Except.bind, walk] at hw
            split at hw
            · cases hw
            · cases hw
            · simpa using hw

/-- What is found at a path to a folder, followed by a name that stays there, is no file. -/
theorem not_isFile_stay {d : Disk} {root : Path} {place : List RawText}
    (hr : d.find root = .ok (place, .folder)) {name : RawText} (hn : name = "" ∨ name = ".") :
    d.isFile (root.join ⟨name⟩) = false := by
  obtain ⟨front, folder⟩ := walk_base hr
  have noslash : Path.slash ∉ name.bytes := by rcases hn with rfl | rfl <;> decide
  have stays : d.walk [] (root.join ⟨name⟩).steps = .ok place := by
    rw [Path.steps_join root noslash, walk_append, front]
    exact walk_stay folder hn
  unfold isFile find
  rw [stays]
  simp only [folder]
  split
  · rename_i found
    split at found <;> cases found
  · rfl

/-- The full name of a file in a folder is that of the folder with the name of the file. -/
theorem bytes_of_listed {folder : List UInt8} {name rest : RawText} {node : Node}
    (h : (match node with
      | .folder => none
      | .file _ =>
        if folder.isPrefixOf name.bytes then
          let rest := name.bytes.drop folder.length
          if Path.slash ∈ rest then none else some (RawText.mk rest)
        else none) = some rest) :
    name.bytes = folder ++ rest.bytes ∧ Path.slash ∉ rest.bytes := by
  cases node with
  | folder => cases h
  | file bytes =>
    simp only at h
    split at h
    · rename_i prefixed
      obtain ⟨tail, ht⟩ := List.isPrefixOf_iff_prefix.mp prefixed
      rw [← ht, List.drop_left] at h
      split at h
      · cases h
      · rename_i noslash
        cases h
        exact ⟨ht.symm, noslash⟩
    · cases h

theorem slash_not_mem_filesIn {d : Disk} {place : List RawText} {name : RawText}
    (h : name ∈ d.filesIn place) : Path.slash ∉ name.bytes := by
  obtain ⟨⟨full, node⟩, -, listed⟩ := List.mem_filterMap.mp h
  exact (bytes_of_listed listed).2

theorem nodup_filesIn (d : Disk) (place : List RawText) : (d.filesIn place).Nodup := by
  refine d.nodes.sorted.filterMap _ ?_
  rintro ⟨⟨full⟩, node⟩ ⟨⟨full'⟩, node'⟩ before name listed name' listed' rfl
  obtain rfl : full = full' := (bytes_of_listed listed).1.trans (bytes_of_listed listed').1.symm
  simp [Std.ReflCmp.compare_self] at before

/-- The path of a script in a folder ends in the name that the folder has it by. -/
theorem fileName?_script {d : Disk} {root : Path} {place : List RawText}
    (hr : d.find root = .ok (place, .folder)) {name : RawText} (hn : Path.slash ∉ name.bytes)
    (file : d.isFile (root.join ⟨name⟩)) (script : (root.join ⟨name⟩).isScript) :
    (root.join ⟨name⟩).fileName? = some name := by
  refine Path.fileName?_of_steps (root.steps_join hn) ?_ ?_ ?_
  · rintro rfl
    rw [not_isFile_stay hr (.inl rfl)] at file
    cases file
  · rintro rfl
    rw [not_isFile_stay hr (.inr rfl)] at file
    cases file
  · rintro rfl
    rw [Path.not_isScript_parent (root.steps_join hn)] at script
    cases script

theorem nodup_scripts {d : Disk} {root : Path} {paths : List Path}
    (h : d.scripts root = .ok paths) :
    ∃ names : List RawText, paths.map Path.fileName? = names.map some ∧ names.Nodup := by
  unfold scripts at h
  split at h
  · rename_i place hr
    cases h
    refine ⟨(d.filesIn place).filter fun name =>
      d.isFile (root.join ⟨name⟩) && (root.join ⟨name⟩).isScript, ?_,
      (d.nodup_filesIn place).filter _⟩
    rw [List.filter_map, List.map_map]
    apply List.map_congr_left
    intro name hn
    obtain ⟨listed, kept⟩ := List.mem_filter.mp hn
    obtain ⟨file, script⟩ := Bool.and_eq_true_iff.mp kept
    exact fileName?_script hr (slash_not_mem_filesIn listed) file script
  · cases h

end Disk

end LiveCalls
