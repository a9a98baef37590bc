import Libipfs.Lib.CString

/-!
# The words of a text

What `strtok` finds, with the places where it finds it.

* `strtok_cases`          nothing but delimiters, or a first word and what is behind it;
* `exists_of_strtok`      **a word among others** cuts the text in front of it and behind it;
* `flatten_strtok`        the words have all characters that are no delimiters.
-/

namespace CSem

/-- nothing, or what a delimiter begins -/
def Delimited (delim : UInt8) (text : List UInt8) : Prop := text = [] ∨ ∃ rest, text = delim :: rest

section
variable {delim : UInt8} {text word : List UInt8} {before rest : List (List UInt8)}

theorem strtok_append_delimited {back : List UInt8} (h : Delimited delim back)
    (front : List UInt8) : strtok delim (front ++ back) = strtok delim front ++ strtok delim back := by
  rcases h with rfl | ⟨back, rfl⟩
  · rw [List.append_nil, strtok_nil, List.append_nil]
  · rw [strtok_append, strtok_cons_self]

theorem strtok_append_of_getLast {front : List UInt8} (h : front.getLast? = some delim)
    (text : List UInt8) : strtok delim (front ++ text) = strtok delim front ++ strtok delim text := by
  obtain ⟨front, rfl⟩ : ∃ init, front = init ++ [delim] := List.getLast?_eq_some_iff.1 h
  rw [List.append_assoc, strtok_concat_self]
  exact strtok_append front text

theorem strtok_word_delimited {back : List UInt8} (hne : word ≠ []) (h : delim ∉ word)
    (hback : Delimited delim back) : strtok delim (word ++ back) = word :: strtok delim back := by
  rw [strtok_append_delimited hback, strtok_of_not_mem hne h]
  rfl

/-- **the first word**, behind delimiters -/
theorem strtok_cases (delim : UInt8) (text : List UInt8) :
    (∃ n, text = List.replicate n delim) ∨
      ∃ n word back, text = List.replicate n delim ++ (word ++ back) ∧ word ≠ [] ∧ delim ∉ word ∧
        Delimited delim back ∧ strtok delim text = word :: strtok delim back := by
  induction text with
  | nil => exact .inl ⟨0, rfl⟩
  | cons c text ih =>
    by_cases hc : c = delim
    · subst hc
      rcases ih with ⟨n, rfl⟩ | ⟨n, word, back, rfl, hne, hword, hback, hstrtok⟩
      · exact .inl ⟨n + 1, List.replicate_succ.symm⟩
      · refine .inr ⟨n + 1, word, back, ?_, hne, hword, hback, ?_⟩
        · rw [List.replicate_succ, List.cons_append]
        · rw [strtok_cons_self, hstrtok]
    · -- the word is what is in front of the next delimiter
      have hcut := joinAt_cutAt delim (c :: text)
      have hword := not_mem_cutAt delim (c :: text)
      have hne : (cutAt delim (c :: text)).1 ≠ [] := by
        rw [cutAt, if_neg hc]
        exact List.cons_ne_nil _ _
      refine .inr ⟨0, (cutAt delim (c :: text)).1, ?_⟩
      cases hback : (cutAt delim (c :: text)).2 with
      | none =>
        rw [hback, joinAt] at hcut
        refine ⟨[], ?_, hne, hword, .inl rfl, ?_⟩
        · rw [List.append_nil, hcut]
          rfl
        · have hself := strtok_of_not_mem hne hword
          conv => lhs; rw [← hcut]
          exact hself
      | some back =>
        rw [hback, joinAt] at hcut
        refine ⟨delim :: back, hcut.symm, hne, hword, .inr ⟨back, rfl⟩, ?_⟩
        conv => lhs; rw [← hcut]
        exact strtok_word_delimited hne hword (.inr ⟨back, rfl⟩)

theorem strtok_replicate (n : Nat) : strtok delim (List.replicate n delim) = [] := by
  induction n with
  | zero => rfl
  | succ n ih => rw [List.replicate_succ, strtok_cons_self, ih]

theorem strtok_replicate_append (n : Nat) (text : List UInt8) :
    strtok delim (List.replicate n delim ++ text) = strtok delim text := by
  induction n with
  | zero => rfl
  | succ n ih => rw [List.replicate_succ, List.cons_append, strtok_cons_self, ih]

/-- **a word among others** -/
theorem exists_of_strtok (h : strtok delim text = before ++ word :: rest) :
    ∃ front back, text = front ++ (word ++ back) ∧ strtok delim front = before ∧
      word ≠ [] ∧ delim ∉ word ∧ (front = [] ∨ front.getLast? = some delim) ∧
      Delimited delim back ∧ strtok delim back = rest := by
  induction before generalizing text with
  | nil =>
    rcases strtok_cases delim text with ⟨n, rfl⟩ | ⟨n, first, back, rfl, hne, hfirst, hback, heq⟩
    · rw [strtok_replicate] at h
      cases h
    · rw [heq] at h
      obtain ⟨rfl, hrest⟩ := List.cons.inj h
      refine ⟨List.replicate n delim, back, rfl, strtok_replicate n, hne, hfirst, ?_, hback, hrest⟩
      cases n with
      | zero => exact .inl rfl
      | succ n => exact .inr (by rw [List.getLast?_replicate, if_neg (Nat.succ_ne_zero n)])
  | cons first before ih =>
    rcases strtok_cases delim text with ⟨n, rfl⟩ | ⟨n, first', more, rfl, hne, hfirst, hmore, heq⟩
    · rw [strtok_replicate] at h
      cases h
    · rw [heq] at h
      obtain ⟨rfl, hlater⟩ := List.cons.inj h
      obtain ⟨front, back, rfl, hfront, hword, hdelim, hlast, hback, hrest⟩ := ih hlater
      -- what is between the first word and this one begins with a delimiter
      have hfrontne : front ≠ [] := by
        rintro rfl
        rcases hmore with hnil | ⟨rest', hcons⟩
        · rw [List.nil_append] at hnil
          exact hword (List.append_eq_nil_iff.1 hnil).1
        · cases word with
          | nil => exact hword rfl
          | cons c word =>
            rw [List.nil_append, List.cons_append] at hcons
            exact hdelim ((List.cons.inj hcons).1 ▸ List.mem_cons_self)
      have hfrontd : Delimited delim front := by
        cases front with
        | nil => exact .inl rfl
        | cons c front =>
          rcases hmore with hnil | ⟨rest', hcons⟩
          · cases hnil
          · rw [List.cons_append] at hcons
            exact .inr ⟨front, by rw [(List.cons.inj hcons).1]⟩
      refine ⟨List.replicate n delim ++ (first' ++ front), back, ?_, ?_, hword, hdelim, ?_, hback,
        hrest⟩
      · rw [List.append_assoc, List.append_assoc]
      · rw [strtok_replicate_append, strtok_word_delimited hne hfirst hfrontd, hfront]
      · right
        rw [List.getLast?_append_of_ne_nil _ (List.append_ne_nil_of_right_ne_nil _ hfrontne),
          List.getLast?_append_of_ne_nil _ hfrontne]
        exact hlast.resolve_left hfrontne

/-- **all characters that are no delimiters** are in the words -/
theorem flatten_strtok (delim : UInt8) (text : List UInt8) :
    (strtok delim text).flatten = text.filter (· ≠ delim) := by
  generalize hn : text.length = n
  induction n using Nat.strong_induction_on generalizing text with
  | _ n ih =>
    have hslashes : ∀ k, (List.replicate k delim).filter (· ≠ delim) = [] := by
      intro k
      refine List.filter_eq_nil_iff.2 fun c hc => ?_
      rw [List.eq_of_mem_replicate hc]
      simp
    rcases strtok_cases delim text with ⟨k, rfl⟩ | ⟨k, word, back, rfl, hne, hword, -, heq⟩
    · rw [strtok_replicate, hslashes]
      rfl
    · have hlen : back.length < n := by
        have hpos := List.length_pos_iff.2 hne
        rw [List.length_append, List.length_append] at hn
        omega
      have hself : word.filter (· ≠ delim) = word := by
        refine List.filter_eq_self.2 fun c hc => decide_eq_true fun e => hword ?_
        rw [← e]
        exact hc
      rw [heq, List.flatten_cons, ih _ hlen back rfl, List.filter_append, List.filter_append,
        hslashes, hself]
      rfl

end

end CSem
