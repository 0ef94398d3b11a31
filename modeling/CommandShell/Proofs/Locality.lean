import CommandShell.Proofs.Grammar

/-!
# Arguments are local

A parameter is handed all words of a line together with a position. What it reads from there is a
run of words, and it makes no difference where the run stands: neither the words in front of it nor
those behind it have a say in its value, or in where it ends. An array reads for as long as it has
not come to its end word, so this takes that the words of an argument tell by themselves where the
argument is over. They do, at every depth, because no phrase is a proper beginning of another. For
the same reason an argument that is broken off is no argument, whatever it is broken off at.

Main results:

* `Phrase.eq_of_words_prefix`: no phrase is a proper beginning of another;
* `Param.readAt_append_of_derives`: a phrase is read in any surroundings;
* `Param.not_accepts_of_prefix`: a proper beginning of a phrase is not accepted as the last words;
* `Param.readAt_is_local`: what is read is read in any surroundings, and not before it is complete.
-/

namespace CommandShell

/-- No phrase of a parameter is a proper beginning of another. -/
theorem Phrase.eq_of_words_prefix {p : Param} {t u : Phrase} (ht : p.Derives t) (hu : p.Derives u)
    (h : u.words <+: t.words) : u = t := by
  obtain ⟨rest, hrest⟩ := h
  exact (Phrase.eq_of_append hu ht (hrest.trans (List.append_nil t.words).symm)).1

namespace Param

variable {p : Param} {tokens : List String} {position q m : Nat} {v : Value}

/-- A phrase is read wherever it stands. -/
theorem readAt_append_of_derives {t : Phrase} (ht : p.Derives t) (front back : List String) :
    p.readAt (front ++ t.words ++ back) front.length =
      .ok (t.value, front.length + t.words.length) := by
  refine readAt_eq_ok_iff.mpr ⟨t, ht, ⟨back, ?_⟩, rfl, rfl⟩
  rw [List.append_assoc, List.drop_left]

/-- A phrase that lacks words at its end is not accepted. -/
theorem not_accepts_of_prefix {t : Phrase} {words : List String} (ht : p.Derives t)
    (hbegins : words <+: t.words) (hlt : words.length < t.words.length) (front : List String) :
    p.accepts (front ++ words) front.length = false := by
  rw [Bool.eq_false_iff]
  intro haccepts
  obtain ⟨u, hu, hwords⟩ := accepts_iff.mp haccepts
  rw [List.drop_left] at hwords
  -- what is accepted would be a phrase, and a proper beginning of the phrase `t`
  obtain rfl := Phrase.eq_of_words_prefix ht hu (hwords.trans hbegins)
  exact absurd hwords.length_le (Nat.not_le.mpr hlt)

/-! ## The words between two positions -/

/-- The words that are read are those of a phrase. -/
theorem exists_derives_extract (h : p.readAt tokens position = .ok (v, q)) :
    ∃ t, p.Derives t ∧ t.words = tokens.extract position q ∧ v = t.value := by
  obtain ⟨t, ht, hwords, hvalue, rfl⟩ := readAt_eq_ok_iff.mp h
  refine ⟨t, ht, ?_, hvalue⟩
  have htake := List.prefix_iff_eq_take.mp hwords
  rwa [List.extract, Nat.add_sub_cancel_left]

/-- Between two positions there are as many words as the positions are apart. -/
theorem length_extract (hm : m ≤ tokens.length) :
    (tokens.extract position m).length = m - position := by
  rw [List.extract, List.length_take, List.length_drop]
  omega

theorem extract_prefix_extract (hm : m ≤ q) :
    tokens.extract position m <+: tokens.extract position q :=
  List.take_prefix_take_left (Nat.sub_le_sub_right hm position)

/-- **Arguments are local, and none is a proper beginning of another.** What a parameter reads from
one position up to another it reads in any surroundings, with the same value and as many words. If
the words stop sooner, they are not accepted. So no two arguments of a parameter are such that the
words of one are a proper beginning of those of the other, and arguments of the same words have the
same value. -/
theorem readAt_is_local (h : p.readAt tokens position = .ok (v, q)) :
    (∀ front back, p.readAt (front ++ tokens.extract position q ++ back) front.length =
      .ok (v, front.length + q - position)) ∧
    (∀ m, position ≤ m → m < q → ∀ front,
      p.accepts (front ++ tokens.extract position m) front.length = false) ∧
    (∀ tokens' position' v' q', p.readAt tokens' position' = .ok (v', q') →
      tokens'.extract position' q' <+: tokens.extract position q →
        tokens'.extract position' q' = tokens.extract position q ∧ v' = v) := by
  obtain ⟨t, ht, hwords, rfl⟩ := exists_derives_extract h
  obtain ⟨hlt, hle⟩ := readAt_bounds h
  have hlength : t.words.length = q - position := by rw [hwords, length_extract hle]
  refine ⟨?_, ?_, ?_⟩
  · intro front back
    have hread := readAt_append_of_derives ht front back
    have hend : front.length + t.words.length = front.length + q - position := by omega
    rwa [hend, hwords] at hread
  · intro m hlo hhi front
    apply not_accepts_of_prefix ht
    · rw [hwords]
      exact extract_prefix_extract (Nat.le_of_lt hhi)
    · rw [hlength, length_extract (Nat.le_trans (Nat.le_of_lt hhi) hle)]
      omega
  · intro tokens' position' v' q' h' hbegins
    obtain ⟨u, hu, hwords', rfl⟩ := exists_derives_extract h'
    rw [← hwords, ← hwords'] at hbegins ⊢
    obtain rfl := Phrase.eq_of_words_prefix ht hu hbegins
    exact ⟨rfl, rfl⟩

/-- An array and the arrays in it may share their end word: the first one closes an item, and the
one after it the array, as no item may begin with it. -/
theorem readAt_is_local_shared :
    (array ";" (array ";" (scalar (.int "n")))).readAt ["row", "1", "2", ";", ";", ";"] 1 =
      .ok (.list [.list [.int 1, .int 2]], 5) ∧
    (∀ front back, (array ";" (array ";" (scalar (.int "n")))).readAt
      (front ++ ["1", "2", ";", ";"] ++ back) front.length =
        .ok (.list [.list [.int 1, .int 2]], front.length + 5 - 1)) ∧
    ∀ front, (array ";" (array ";" (scalar (.int "n")))).accepts
      (front ++ ["1", "2", ";"]) front.length = false := by
  have hread : (array ";" (array ";" (scalar (.int "n")))).readAt
      ["row", "1", "2", ";", ";", ";"] 1 = .ok (.list [.list [.int 1, .int 2]], 5) := by rfl
  obtain ⟨hlocal, hbroken, -⟩ := readAt_is_local hread
  exact ⟨hread, hlocal, hbroken 4 (by decide) (by decide)⟩

end Param

end CommandShell
