import RepoAudit.Proofs.FileTree.Sight

/-!
# Paths that stay below a directory

The parts of a path may point upwards.  As long as they never lead above the directory from which
they are followed, and no link stands below it, where they lead is decided by the tree of that
directory alone.
-/

namespace RepoAudit

namespace Path

/-- Followed from so many directories below some directory, the parts never lead above that one. -/
def staysBelow : (depth : Nat) → List String → Bool
  | _, [] => true
  | depth, part :: rest =>
      if part == "" || part == "." then staysBelow depth rest
      else if part == ".." then decide (0 < depth) && staysBelow (depth - 1) rest
      else staysBelow (depth + 1) rest

variable {depth : Nat} {parts : List String} {path last : String}

theorem staysBelow_concat (hlast : last ≠ "..") :
    staysBelow depth (parts ++ [last]) = staysBelow depth parts := by
  induction parts generalizing depth with
  | nil => simp [staysBelow, hlast]
  | cons part parts ih =>
      rw [List.cons_append, staysBelow, staysBelow, ih, ih, ih]

/-- A path that stays below a directory does so with a name after it. -/
theorem staysBelow_join (hpath : path.toList.head? ≠ some '/')
    (hlast : IsSegment last ∧ last ≠ "..") (h : staysBelow 0 (segments path) = true) :
    (join path last).toList.head? ≠ some '/' ∧ staysBelow 0 (segments (join path last)) = true := by
  have hslash : last.toList.head? ≠ some '/' := fun hhead =>
    hlast.1.2 (List.mem_of_mem_head? hhead)
  have hsegments : segments last = [last] := by
    have hsingle : segments (ofSegments [last]) = [last] :=
      segments_ofSegments (List.cons_ne_nil _ _) (by simpa using hlast.1)
    simpa [ofSegments] using hsingle
  by_cases hempty : path = ""
  · rw [hempty, join_empty, hsegments]
    exact ⟨hslash, by simp [staysBelow, hlast.2]⟩
  · refine ⟨by rwa [head?_join hempty hslash], ?_⟩
    obtain ⟨body, pad, -, hpad, hbody, hjoin⟩ := segments_join hempty hslash
    rw [hjoin, hsegments, staysBelow_concat hlast.2]
    rw [hbody] at h
    rcases hpad with rfl | rfl
    · simpa using h
    · rwa [staysBelow_concat (by simp)] at h

end Path

theorem FileTree.Linkless.at? {t sub : FileTree} {place : Location} (ht : t.Linkless)
    (hplace : t.at? place = some sub) : sub.Linkless := by
  induction place generalizing t with
  | nil =>
      obtain rfl : t = sub := by simpa [FileTree.at?] using hplace
      exact ht
  | cons name place ih =>
      rw [FileTree.at?, Option.bind_eq_some_iff] at hplace
      obtain ⟨child, hchild, hrest⟩ := hplace
      cases ht with
      | file bytes => simp [child?] at hchild
      | directory below => exact ih (below _ (mem_of_lookup hchild)) hrest

namespace Volume

variable {top t : FileTree} {links : Nat} {base inner : Location} {parts : List String}

/-- Parts that stay below a directory without links are followed in its tree as they are in the
whole one. -/
theorem resolveFrom_below (hat : top.at? base = some t) (hlinks : t.Linkless)
    (hbelow : Path.staysBelow inner.length parts = true) :
    resolveFrom top true links (base ++ inner) parts =
      (resolveFrom t true 0 inner parts).map fun found => (base ++ found.1, found.2) := by
  have hplace : ∀ inner : Location, top.at? (base ++ inner) = t.at? inner := by
    intro inner
    rw [FileTree.at?_append, hat]
    rfl
  induction parts generalizing inner with
  | nil =>
      rw [resolveFrom, resolveFrom, hplace]
      cases t.at? inner <;> rfl
  | cons part parts ih =>
      rw [resolveFrom.eq_def, resolveFrom.eq_def t]
      dsimp only
      rw [hplace]
      cases hinner : t.at? inner with
      | none => rfl
      | some sub =>
          cases hlinks.at? hinner with
          | file bytes => rfl
          | @directory entries below =>
              rw [Path.staysBelow] at hbelow
              dsimp only
              by_cases hskip : (part == "" || part == ".") = true
              · rw [if_pos hskip] at hbelow
                rw [if_pos hskip, if_pos hskip, ih hbelow]
              · rw [if_neg hskip] at hbelow
                rw [if_neg hskip, if_neg hskip]
                by_cases hup : (part == "..") = true
                · rw [if_pos hup] at hbelow
                  rw [if_pos hup, if_pos hup]
                  cases hlast : inner using List.reverseRecOn with
                  | nil => simp [hlast] at hbelow
                  | append_singleton above name =>
                      rw [hlast, List.length_append, List.length_singleton, Bool.and_eq_true]
                        at hbelow
                      rw [← List.append_assoc, List.dropLast_concat, List.dropLast_concat]
                      exact ih hbelow.2
                · rw [if_neg hup] at hbelow
                  rw [if_neg hup, if_neg hup]
                  cases hlookup : entries.lookup part with
                  | none => rfl
                  | some child =>
                      have hnext := @ih (inner ++ [part]) (by simpa using hbelow)
                      rw [← List.append_assoc] at hnext
                      cases below _ (FileTree.mem_of_lookup hlookup) with
                      | file bytes => exact hnext
                      | directory inside => exact hnext

/-- Where a path leads that is put after one to a directory without links, and stays below it. -/
theorem resolve_join_below {v : Volume} {path name : String} {real : Location} (hv : v.Anchored)
    (hresolve : v.resolve path = .ok (real, t)) (hlinks : t.Linkless)
    (hname : name.toList.head? ≠ some '/')
    (hbelow : Path.staysBelow 0 (Path.segments name) = true) :
    v.resolve (Path.join path name) =
      (resolveFrom t true 0 [] (Path.segments name)).map fun found => (real ++ found.1, found.2) := by
  obtain ⟨left, hleft⟩ := resolve_join hv hresolve hname
  have hfound : resolveFrom v.top true left (real ++ []) (Path.segments name) = _ :=
    resolveFrom_below (at?_of_resolve hresolve) hlinks hbelow
  rw [hleft, ← hfound, List.append_nil]

end Volume
end RepoAudit
