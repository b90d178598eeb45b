import DartData.Proofs.Generation.Edits
import DartData.Proofs.Run.Files
import DartData.Proofs.Utf8.LineEnds

/-!
# What a run keeps of a file

A file is read with line feeds for line ends, edited by lines and written back.  So a line that no
edit replaces comes through with what stands in it, but its end becomes a line feed: it is kept byte
for byte if it ends with a line feed, and not if a carriage return is part of its end.

Main statement: **`RunRequest.run_keeps_lines`**.
-/

namespace DartData

open List

namespace Edit

/-! ## §1. Edits and the last line. -/

/-- With the spans replaced there is still a last line; if it is not that of the text, an edit has
    taken that one's place. -/
theorem replaceFrom_concat_line {es : List Edit} {above : List Text} {l : Text}
    (hes : ∀ e ∈ es, 1 ≤ e.first ∧ e.first ≤ e.last + 1 ∧ e.last ≤ above.length + 1
      ∧ e.first ≤ above.length + 1 ∧ e.lines ≠ []) (hp : es.Pairwise Above) :
    ∃ new m, replaceFrom 0 (above ++ [l]) es = new ++ [m] ∧ (outside es 0 above).Sublist new
      ∧ (m = l ∨ outside es above.length [l] = []) := by
  by_cases hlast : ∀ e ∈ es, e.last ≤ above.length
  · -- all edits end above the last line
    refine ⟨replaceFrom 0 above es, l, ?_, ?_, .inl rfl⟩
    · apply replaceFrom_append [l] es 0 above (fun e he => ?_) hp
      obtain ⟨h₁, h₂, -⟩ := hes e he
      have := hlast e he
      omega
    · apply outside_sublist_replaceFrom es 0 above (fun e he => ?_) hp
      obtain ⟨h₁, h₂, -⟩ := hes e he
      have := hlast e he
      exact ⟨he, by omega, by omega, by omega⟩
  · -- the one that does not comes last, and its lines end the text
    obtain ⟨e, he, hcover⟩ : ∃ e ∈ es, ¬ e.last ≤ above.length := by simpa using hlast
    obtain ⟨h₁, h₂, h₃, h₄, h₅⟩ := hes e he
    obtain ⟨before, after, rfl⟩ := append_of_mem he
    obtain ⟨hpb, hpa, hbe⟩ := pairwise_append.mp hp
    obtain rfl : after = [] := by
      cases after with
      | nil => rfl
      | cons f after =>
        have hef : e.last < f.first := (pairwise_cons.mp hpa).1 f mem_cons_self
        have := (hes f (by simp)).2.2.2.1
        omega
    -- the edits before it work on the lines above its span
    have hbefore : ∀ f ∈ before, ((0 : Nat) : Int) < f.first ∧ f.first ≤ f.last + 1
        ∧ f.last ≤ (0 : Nat) + (above.take (e.first - 1).toNat).length := by
      intro f hf
      obtain ⟨hf₁, hf₂, -⟩ := hes f (mem_append_left _ hf)
      have hfe : f.last < e.first := hbe f hf e (by simp)
      rw [length_take]
      omega
    have hconcat := replaceFrom_concat (e := e) before 0 (above ++ [l]) (fun f hf => ?_) hpb
      (by omega) (by rw [length_append, length_singleton]; omega) h₂
    · rw [Nat.sub_zero, Nat.sub_zero, take_append_of_le_length (by omega),
        drop_eq_nil_of_le (by rw [length_append, length_singleton]; omega),
        append_nil, replaceFrom_append e.lines before 0 _ hbefore hpb] at hconcat
      obtain ⟨lines, m, hlines⟩ : ∃ lines m, e.lines = lines ++ [m] :=
        ⟨_, _, (dropLast_concat_getLast h₅).symm⟩
      refine ⟨replaceFrom 0 (above.take (e.first - 1).toNat) before ++ lines, m, ?_, ?_, .inr ?_⟩
      · rw [← hconcat, hlines, append_assoc]
      · have hspan : outside (before ++ [e]) (0 + (above.take (e.first - 1).toNat).length)
            (above.drop (e.first - 1).toNat) = [] := by
          apply outside_of_covered he
          · rw [length_take]; omega
          · rw [length_take, length_drop]; omega
        have hcut : outside (before ++ [e]) 0 above
            = outside (before ++ [e]) 0 (above.take (e.first - 1).toNat) := by
          conv => lhs; rw [← take_append_drop (e.first - 1).toNat above]
          rw [outside_append, hspan, append_nil]
        rw [hcut]
        refine (outside_sublist_replaceFrom before 0 _ (fun f hf => ?_) hpb).trans
          (sublist_append_left _ _)
        exact ⟨mem_append_left _ hf, hbefore f hf⟩
      · exact outside_of_covered he [l] above.length (by omega) (by simp; omega)
    · obtain ⟨hf₁, hf₂, -⟩ := hes f (mem_append_left _ hf)
      exact ⟨hf₂, hbe f hf e (by simp), by omega⟩

end Edit

/-! ## §2. Lines with their ends. -/

namespace Utf8

open Text

/-- Lines that stay among others keep the line feed after them. -/
theorem sublist_endedLines {as bs : List Text} (h : as.Sublist bs)
    (has : ∀ a ∈ as, '\r' ∉ a ∧ '\n' ∉ a) (rest : Text) :
    (as.map (· ++ ['\n']) ++ endedLines rest).Sublist (endedLines (endLines bs ++ rest)) := by
  induction h with
  | slnil => exact List.Sublist.refl _
  | @cons as bs b _ ih =>
    obtain ⟨l, above, hb⟩ := endedLines_append_lineFeed b (endLines bs ++ rest)
    rw [endLines_cons, append_assoc, cons_append, hb]
    exact ((ih has).trans (sublist_append_right _ _)).cons l
  | @cons_cons as bs a _ ih =>
    obtain ⟨hr, hn⟩ := has a mem_cons_self
    rw [endLines_cons, append_assoc, cons_append, endedLines_line hr hn]
    exact (ih (forall_mem_cons.mp has).2).cons_cons _

theorem endedLines_unlines {ls : List Text} {l : Text} (hls : ∀ x ∈ ls, '\r' ∉ x ∧ '\n' ∉ x)
    (hl : '\r' ∉ l ∧ '\n' ∉ l) :
    endedLines (unlines (ls ++ [l])) = ls.map (· ++ ['\n']) ++ [l] := by
  rw [← endLines_append_eq_unlines]
  induction ls with
  | nil => exact endedLines_of_clean hl.1 hl.2
  | cons a ls ih =>
    obtain ⟨hr, hn⟩ := hls a mem_cons_self
    rw [endLines_cons, append_assoc, cons_append, endedLines_line hr hn,
      ih (forall_mem_cons.mp hls).2]
    rfl

/-- **Lines outside of all spans keep their ends**, if these are line feeds. -/
theorem outside_endedLines_sublist {text : Text} (htext : '\r' ∉ text) {es : List Edit}
    (hes : ∀ e ∈ es, e.Inside text.lines.length ∧ e.first ≤ text.lines.length ∧ e.lines ≠ [])
    (hp : es.Pairwise Edit.Above) :
    (Edit.outside es 0 (endedLines text)).Sublist
      (endedLines (unlines (Edit.replaceFrom 0 text.lines es))) := by
  have hclean : ∀ l ∈ text.lines, '\r' ∉ l ∧ '\n' ∉ l := fun l hl =>
    ⟨fun hr => htext (mem_of_mem_split l hl _ hr), not_mem_of_mem_lines hl⟩
  -- the last line has no line feed, and is treated apart
  obtain ⟨above, l, hlines⟩ : ∃ above l, text.lines = above ++ [l] :=
    ⟨_, _, (dropLast_concat_getLast (lines_ne_nil text)).symm⟩
  have hended : endedLines text = above.map (· ++ ['\n']) ++ [l] := by
    rw [← unlines_lines text, hlines]
    exact endedLines_unlines (fun x hx => hclean x (by simp [hlines, hx]))
      (hclean l (by simp [hlines]))
  have hplaced : ∀ e ∈ es, 1 ≤ e.first ∧ e.first ≤ e.last + 1 ∧ e.last ≤ above.length + 1
      ∧ e.first ≤ above.length + 1 ∧ e.lines ≠ [] := by
    intro e he
    obtain ⟨⟨h₁, h₂, h₃⟩, h₄, h₅⟩ := hes e he
    rw [hlines, length_append, length_singleton] at h₃ h₄
    exact ⟨h₁, h₂, by omega, by omega, h₅⟩
  have hkept : ∀ a ∈ Edit.outside es 0 above, '\r' ∉ a ∧ '\n' ∉ a := by
    intro a ha
    apply hclean a
    rw [hlines]
    exact mem_append_left _ ((Edit.outside_sublist es above 0).subset ha)
  obtain ⟨new, m, hnew, hsub, hlast⟩ := Edit.replaceFrom_concat_line (l := l) hplaced hp
  rw [hlines, hnew, ← endLines_append_eq_unlines, hended, Edit.outside_append, Edit.outside_map]
  refine List.Sublist.trans (List.Sublist.append_left ?_ _) (sublist_endedLines hsub hkept m)
  rw [Nat.zero_add, length_map]
  rcases hlast with rfl | hnone
  · rw [endedLines_of_clean (hclean m (by simp [hlines])).1 (hclean m (by simp [hlines])).2]
    exact Edit.outside_sublist es [m] above.length
  · rw [hnone]
    exact nil_sublist _

end Utf8

/-! ## §3. Files. -/

variable {text : Text} {r : Request} {g : Generation}

theorem FileTree.readText_eq_ok {t : FileTree} {path : Text} (h : t.readText path = .ok text) :
    ∃ content, t.readBytes path = .ok (Utf8.encode content)
      ∧ text = Utf8.unifyLineEnds content := by
  obtain ⟨bytes, hbytes, h⟩ := bind_eq_ok.mp h
  split at h
  · next content hcontent =>
    exact ⟨content, by rw [hbytes, Utf8.encode_of_decode? hcontent], (Except.ok.inj h).symm⟩
  · cases h

theorem Utf8.eq_encode_of_encode? {writable : Char → Bool} {bytes : List UInt8}
    (h : Utf8.encode? writable text = some bytes) : bytes = Utf8.encode text := by
  unfold Utf8.encode? at h
  split at h
  · exact (Option.some.inj h).symm
  · cases h

/-- The steps of a revision. -/
theorem RunRequest.revision_eq_ok {r : RunRequest} {reader : Reader} {files : FileTree}
    {v : RunRequest.Revision} (h : r.revision reader files = .ok v) :
    files.readText r.path = .ok v.before
      ∧ (∃ q, generate v.before q = .ok v.generation)
      ∧ v.generation.edits.apply v.before = .ok v.after := by
  obtain ⟨before, hbefore, h⟩ := bind_eq_ok.mp h
  obtain ⟨found, -, h⟩ := bind_eq_ok.mp h
  obtain ⟨category, -, h⟩ := bind_eq_ok.mp h
  obtain ⟨generation, hgeneration, h⟩ := bind_eq_ok.mp h
  obtain ⟨after, hafter, h⟩ := bind_eq_ok.mp h
  cases h
  exact ⟨hbefore, ⟨_, hgeneration⟩, hafter⟩

/-- In a text with line feeds for line ends, edits keep the lines outside of them with their
    ends. -/
theorem generate_keeps_ended (htext : '\r' ∉ text) (h : generate text r = .ok g) {out : Text}
    (hout : g.edits.apply text = .ok out) :
    (Edit.outside g.edits.topDown 0 (Utf8.endedLines text)).Sublist (Utf8.endedLines out) := by
  have hdisjoint := generate_disjoint h
  obtain rfl : Text.unlines (Edit.replaceFrom 0 text.lines g.edits.topDown) = out :=
    Except.ok.inj ((Edits.apply_eq hdisjoint).symm.trans hout)
  exact Utf8.outside_endedLines_sublist htext (fun _ => generate_edit_lines h) hdisjoint.above

/-- What edits keep of the lines of a file, these being cut with their ends.  The edits were made
    for the file as it is read, with line feeds for line ends. -/
structure Edits.KeepsLines (es : Edits) (before after : Text) : Prop where
  /-- Each line outside of the edits is there, in order, with a line feed where it had an end. -/
  unified : ((Edit.outside es.topDown 0 (Utf8.endedLines before)).map Utf8.unifyLineEnds).Sublist
    (Utf8.endedLines after)
  /-- Those without a carriage return are there as they were, with their ends. -/
  kept : ((Edit.outside es.topDown 0 (Utf8.endedLines before)).filter
    fun l => !l.contains '\r').Sublist (Utf8.endedLines after)
  /-- Those with one are not there, unless a carriage return was generated. -/
  changed : '\r' ∉ after → ∀ l ∈ Edit.outside es.topDown 0 (Utf8.endedLines before),
    '\r' ∈ l → l ∉ Utf8.endedLines after

/-- Keeping the lines of the text that was read is keeping those of the file but for carriage
    returns. -/
theorem Edits.keepsLines_of_unified {es : Edits} {before after : Text}
    (h : (Edit.outside es.topDown 0 (Utf8.endedLines (Utf8.unifyLineEnds before))).Sublist
      (Utf8.endedLines after)) : es.KeepsLines before after := by
  rw [← Utf8.map_unifyLineEnds_endedLines, Edit.outside_map] at h
  refine ⟨h, ?_, fun hafter l _ hl hmem => hafter ?_⟩
  · -- without a carriage return a line is read as it stands
    have hsame : ((Edit.outside es.topDown 0 (Utf8.endedLines before)).filter
          fun l => !l.contains '\r').map Utf8.unifyLineEnds
        = (Edit.outside es.topDown 0 (Utf8.endedLines before)).filter
          fun l => !l.contains '\r' := by
      refine (map_congr_left fun l hl => ?_).trans (map_id _)
      have hr : '\r' ∉ l := by simpa using (mem_filter.mp hl).2
      exact Utf8.unifyLineEnds_of_not_mem hr
    rw [← hsame]
    exact (filter_sublist.map _).trans h
  · rw [← Utf8.flatten_endedLines after]
    exact mem_flatten.mpr ⟨l, hmem, hl⟩

/-- **A run that writes its file keeps the lines that no edit replaces, but for carriage returns at
    their ends**: they stand in the file that is written byte for byte with their ends if these are
    line feeds, and otherwise with a line feed in the stead of the end. -/
theorem RunRequest.run_keeps_lines {r : RunRequest} {s : Surroundings} {w w' : World}
    {o : RunOutcome} (h : r.run s w = .ok o w') (hwritten : o.written = true) :
    ∃ content, w.files.readBytes r.path = .ok (Utf8.encode content)
      ∧ w'.files.readBytes r.path = .ok (Utf8.encode o.after)
      ∧ o.generation.edits.KeepsLines content o.after := by
  have hends : Run.Ends (r.run s) w (fun o w' => o.written = true → ∃ v,
      r.revision s.reader w.files = .ok v ∧ v.generation = o.generation ∧ v.after = o.after
      ∧ w'.files.readBytes r.path = .ok (Utf8.encode o.after))
      (fun _ _ => True) := by
    apply RunRequest.run_ends fun _ _ _ => trivial
    intro v w₁ hw₁ hfile hmade
    apply RunRequest.finish_ends fun _ _ _ => trivial
    · intro _ w₂ _ hfalse
      cases hfalse
    · intro _
      rw [← hw₁] at hfile
      obtain ⟨place, n, htarget⟩ := FileTree.exists_target_of_isFile hfile
      refine Run.Ends.mono (Run.writeFile_reads htarget) ?_ fun _ _ _ => trivial
      rintro kept w₂ ⟨bytes, hbytes, hread⟩ w₃ hw₃
      refine ⟨fun _ => ⟨v, hmade, rfl, rfl, ?_⟩, fun _ => trivial⟩
      rw [hw₃, hread, Utf8.eq_encode_of_encode? hbytes]
  obtain ⟨v, hmade, hgeneration, hafter, hread⟩ := hends.of_ok h hwritten
  obtain ⟨htext, ⟨q, hq⟩, hout⟩ := RunRequest.revision_eq_ok hmade
  obtain ⟨content, hcontent, hbefore⟩ := FileTree.readText_eq_ok htext
  rw [hbefore] at hq hout
  refine ⟨content, hcontent, hread, ?_⟩
  rw [← hgeneration, ← hafter]
  exact Edits.keepsLines_of_unified
    (generate_keeps_ended (Utf8.not_mem_unifyLineEnds content) hq hout)

/-- A comment above a class that gets a constructor, the lines ending with line feeds. -/
theorem RunRequest.run_keeps_comment :
    ∃ (r : RunRequest) (s : Surroundings) (w w' : World) (o : RunOutcome),
      r.run s w = .ok o w' ∧ o.written = true
      ∧ w.files.readBytes r.path = .ok (Utf8.encode "// c\nclass A \x7b\n  int x;\n\x7d\n".toList)
      ∧ ∃ content, w.files.readBytes r.path = .ok (Utf8.encode content)
        ∧ w'.files.readBytes r.path = .ok (Utf8.encode o.after)
        ∧ o.generation.edits.KeepsLines content o.after := by
  obtain ⟨r, s, w, hheld, hends⟩ : ∃ (r : RunRequest) (s : Surroundings) (w : World),
      w.files.readBytes r.path = .ok (Utf8.encode "// c\nclass A \x7b\n  int x;\n\x7d\n")
      ∧ Run.Ends (r.run s) w (fun o _ => o.written = true) (fun _ _ => False) :=
    ⟨{ path := "a.dart", part := some "constructor", write := true },
      { now := [], reader := { read := fun _ => .failed } },
      { files := .holding "a.dart" "// c\nclass A \x7b\n  int x;\n\x7d\n" }, rfl,
      by decide +kernel⟩
  obtain ⟨o, w', hrun, hwritten⟩ := hends.exists_ok
  exact ⟨r, s, w, w', o, hrun, hwritten, hheld, run_keeps_lines hrun hwritten⟩

/-- With carriage returns at the ends of its lines, a file loses those of all lines: the comment is
    not there any more byte for byte. -/
theorem RunRequest.run_changes_comment :
    ∃ (r : RunRequest) (s : Surroundings) (w w' : World) (o : RunOutcome) (content : Text),
      r.run s w = .ok o w' ∧ o.written = true
      ∧ w.files.readBytes r.path = .ok (Utf8.encode content)
      ∧ w'.files.readBytes r.path = .ok (Utf8.encode o.after)
      ∧ "// c\r\n".toList ∈ Edit.outside o.generation.edits.topDown 0 (Utf8.endedLines content)
      ∧ "// c\r\n".toList ∉ Utf8.endedLines o.after := by
  obtain ⟨r, s, w, content, hheld, hends⟩ : ∃ (r : RunRequest) (s : Surroundings) (w : World)
      (content : Text), w.files.readBytes r.path = .ok (Utf8.encode content)
      ∧ Run.Ends (r.run s) w (fun o w' => o.written = true
        ∧ (w'.files.readBytes r.path).toOption = some (Utf8.encode o.after)
        ∧ "// c\r\n".toList ∈ Edit.outside o.generation.edits.topDown 0 (Utf8.endedLines content)
        ∧ "// c\r\n".toList ∉ Utf8.endedLines o.after) (fun _ _ => False) :=
    ⟨{ path := "a.dart", part := some "constructor", write := true },
      { now := [], reader := { read := fun _ => .failed } },
      { files := .holding "a.dart" "// c\r\nclass A \x7b\r\n  int x;\r\n\x7d\r\n" },
      "// c\r\nclass A \x7b\r\n  int x;\r\n\x7d\r\n", rfl, by decide +kernel⟩
  obtain ⟨o, w', hrun, hwritten, hread, hlines⟩ := hends.exists_ok
  exact ⟨r, s, w, w', o, content, hrun, hwritten, hheld, toOption_eq_some.mp hread, hlines⟩

end DartData
