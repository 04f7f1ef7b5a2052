import MyDemo.Im.MessageUtil
import MyDemo.Lib.Substitution

/-!
# Emoji give way to their tokens
-/

namespace MyDemo.Im

open Utf16

/-! ## The code points that are found -/

theorem group_place (pos : ℕ) (fs : List (Regex.Found ℕ)) :
    (MatchResult.place pos fs).map MatchResult.group = (fs.map Regex.Found.group).map encode := by
  induction fs generalizing pos with
  | nil => rfl
  | cons f fs ih => exact congrArg (encode f.group :: ·) (ih _)

def emojis (str : JString) : List ℕ := (codePoints str).filter (fun c => !decide (c ≤ 0xFFFF))

theorem mem_emojis {str : JString} {c : ℕ} : c ∈ emojis str ↔ c ∈ codePoints str ∧ 0x10000 ≤ c := by
  rw [emojis, List.mem_filter, Bool.not_eq_true', decide_eq_false_iff_not, not_le]
  rfl

theorem group_results (str : JString) :
    (results emojiPattern str).map MatchResult.group = (emojis str).map units := by
  rw [results, group_place, emojiPattern, Regex.group_findAll_one, List.map_map, emojis]
  exact List.map_congr_left (fun c _ => List.append_nil (units c))

theorem results_eq_nil_iff {str : JString} : results emojiPattern str = [] ↔ emojis str = [] := by
  rw [← List.map_eq_nil_iff (f := MatchResult.group), group_results, List.map_eq_nil_iff]

theorem exists_pair {str : JString} {c : ℕ} (hc : c ∈ emojis str) :
    ∃ h l, isHigh h = true ∧ isLow l = true ∧ c = pair h l := by
  obtain ⟨hmem, hle⟩ := mem_emojis.mp hc
  clear hc
  induction str using codePoints.induct with
  | case1 => cases hmem
  | case2 u =>
      have hu : u.toNat < 0x10000 := u.isLt
      have hcu : c = u.toNat := List.mem_singleton.mp hmem
      omega
  | case3 u v us huv ih =>
      rw [codePoints, if_pos huv] at hmem
      rcases List.mem_cons.mp hmem with hcu | hmem
      · obtain ⟨hu, hv⟩ := Bool.and_eq_true _ _ ▸ huv
        exact ⟨u, v, hu, hv, hcu⟩
      · exact ih hmem
  | case4 u v us huv ih =>
      rw [codePoints, if_neg huv] at hmem
      rcases List.mem_cons.mp hmem with hcu | hmem
      · have hu : u.toNat < 0x10000 := u.isLt
        omega
      · exact ih hmem

/-! ## Tables of emoji -/

/-- A table like `uMap`, whose tokens have no surrogates and at least the length of an emoji. Only single
supplementary code points are looked up in it. -/
structure EmojiTable where
  get : JString → Option JString
  clean : ∀ emoji token, get emoji = some token → ∀ u ∈ token, isSurrogate u = false
  two_le : ∀ emoji token, get emoji = some token → 2 ≤ token.length

namespace EmojiTable

variable (table : EmojiTable)

/-- The message with the token for each mapped emoji of `add`, and all else unchanged. -/
def rewrite (add message : JString) : JString :=
  (codePoints message).flatMap (fun c =>
    if 0x10000 ≤ c ∧ c ∈ codePoints add then (table.get (units c)).getD (units c) else units c)

/-- The table for some emoji only. -/
def only (cs : List ℕ) : Substitution where
  get c := if 0x10000 ≤ c ∧ c ∈ cs then table.get (units c) else none
  supplementary c token h := by
    split at h
    · next hc => exact hc.1
    · cases h
  clean c token h := by
    split at h
    · exact table.clean _ _ h
    · cases h
  two_le c token h := by
    split at h
    · exact table.two_le _ _ h
    · cases h

variable {table}

theorem only_nil (us : JString) : (table.only []).apply us = us := by
  have htext : (table.only []).text = units := by
    funext c
    simp [Substitution.text, only]
  rw [Substitution.apply, htext]
  exact encode_codePoints us

theorem rewrite_eq (add message : JString) :
    table.rewrite add message = (table.only (emojis add)).apply message := by
  refine List.flatMap_congr (fun c _ => ?_)
  simp only [Substitution.text, only, mem_emojis]
  by_cases hc : 0x10000 ≤ c ∧ c ∈ codePoints add
  · rw [if_pos hc, if_pos ⟨hc.1, hc.2, hc.1⟩]
  · rw [if_neg hc, if_neg (fun h => hc ⟨h.1, h.2.1⟩)]
    rfl

/-! ## The loop -/

theorem get_only {cs : List ℕ} {c : ℕ} (hle : 0x10000 ≤ c) (hc : c ∈ cs) :
    (table.only cs).get c = table.get (units c) := if_pos ⟨hle, hc⟩

theorem get_only_concat {done : List ℕ} {c d : ℕ} (h : d ≠ c ∨ table.get (units c) = none) :
    (table.only (done ++ [c])).get d = (table.only done).get d := by
  simp only [only, List.mem_append, List.mem_singleton]
  rcases eq_or_ne d c with rfl | hd
  · simp [h.resolve_left (fun hne => hne rfl)]
  · simp [hd]

theorem str_next {str message : JString} {c : ℕ} (hc : c ∈ emojis str) {m : MatchResult}
    (hm : m.group = units c) {done : List ℕ} {s : Finding} (hs : s.str = (table.only done).apply message) :
    (s.next table.get m).str = (table.only (done ++ [c])).apply message := by
  obtain ⟨h, l, hh, hl, hpair⟩ := exists_pair hc
  have hle := (mem_emojis.mp hc).2
  have hunits : units c = [h, l] := by rw [hpair, units_pair hh hl]
  rw [Finding.next, hm, hs]
  cases hget : table.get (units c) with
  | none =>
      have htext : (table.only (done ++ [c])).text = (table.only done).text := by
        funext d
        rw [Substitution.text, Substitution.text, get_only_concat (.inr hget)]
      simp [Substitution.apply, htext]
  | some token =>
      have hlength := table.two_le _ _ hget
      have hne : token ≠ [] := List.ne_nil_of_length_pos (by omega)
      have hmem : c ∈ done ++ [c] := List.mem_append_right _ (List.mem_singleton_self c)
      have hnew : (table.only (done ++ [c])).get (pair h l) = some token := by
        rw [← hpair, get_only hle hmem, hget]
      have hold : (table.only done).get (pair h l) = none ∨ (table.only done).get (pair h l) = some token := by
        rw [← hpair]
        by_cases hdone : c ∈ done
        · exact .inr ((get_only hle hdone).trans hget)
        · exact .inl (if_neg (fun hboth => hdone hboth.2))
      have hothers : ∀ d, d ≠ pair h l → (table.only (done ++ [c])).get d = (table.only done).get d :=
        fun d hd => get_only_concat (.inl (hpair ▸ hd))
      simp only [Option.getD_some, if_pos hne, JString.replace, hunits]
      exact Substitution.replaceAll_apply hh hl hnew hold hothers message

theorem str_foldl {str message : JString} {cs : List ℕ} (hcs : ∀ c ∈ cs, c ∈ emojis str)
    {ms : List MatchResult} (hms : ms.map MatchResult.group = cs.map units) {done : List ℕ} {s : Finding}
    (hs : s.str = (table.only done).apply message) :
    (ms.foldl (Finding.next table.get) s).str = (table.only (done ++ cs)).apply message := by
  induction cs generalizing ms done s with
  | nil =>
      rw [List.map_nil, List.map_eq_nil_iff] at hms
      rw [hms, List.append_nil]
      exact hs
  | cons c cs ih =>
      obtain ⟨m, ms, rfl, hm, hms⟩ := List.map_eq_cons_iff.mp hms
      have hnext := str_next (hcs c List.mem_cons_self) hm hs
      rw [List.foldl_cons, ih (fun d hd => hcs d (List.mem_cons_of_mem _ hd)) hms hnext, List.append_assoc]
      rfl

theorem hasEmoji_foldl (uMap : JString → Option JString) (ms : List MatchResult) (s : Finding) :
    (ms.foldl (Finding.next uMap) s).hasEmoji = (s.hasEmoji || !ms.isEmpty) := by
  cases ms with
  | nil => simp
  | cons m ms =>
      have htrue : ∀ (ms : List MatchResult) (s : Finding), s.hasEmoji = true →
          (ms.foldl (Finding.next uMap) s).hasEmoji = true := by
        intro ms
        induction ms with
        | nil => exact fun _ hs => hs
        | cons m ms ih => exact fun _ _ => ih _ rfl
      rw [List.foldl_cons, htrue ms _ rfl]
      simp

/-! ## The whole of it -/

theorem insert_of_le {s str : JString} {offset : ℤ} (h : 0 ≤ offset) (hle : offset ≤ s.length) :
    s.insert offset str = .ok (s.take offset.toNat ++ str ++ s.drop offset.toNat) := if_pos ⟨h, hle⟩

/-- The message comes back with the token for each mapped emoji that has been added, and all else
unchanged. -/
theorem isFind_rewrites (table : EmojiTable) {message add : JString} {start count : ℤ}
    (hadd : message.substring start (start + count) = .ok add) :
    ∃ find, isFind table.get add message start = .ok find ∧
      (find.isFind = true ↔ ∃ c ∈ codePoints add, 0x10000 ≤ c) ∧
      find.result = table.rewrite add message := by
  have hrange : 0 ≤ start ∧ start ≤ start + count ∧ start + count ≤ message.length := by
    by_contra hout
    rw [JString.substring, if_neg hout] at hadd
    cases hadd
  have hnone : (⟨false, add, message⟩ : Finding).str = (table.only []).apply message := (only_nil message).symm
  have hstr := str_foldl (fun c hc => hc) (group_results add) hnone
  rw [List.nil_append, ← rewrite_eq] at hstr
  have hlength : message.length ≤ (table.rewrite add message).length := by
    rw [rewrite_eq]
    exact Substitution.length_le_apply _ message
  refine ⟨⟨((results emojiPattern add).foldl (Finding.next table.get) ⟨false, add, message⟩).hasEmoji,
    table.rewrite add message⟩, ?_, ?_, rfl⟩
  · rw [isFind, ← hstr, insert_of_le hrange.1 (by rw [hstr]; omega)]
    rfl
  · rw [hasEmoji_foldl, Bool.false_or, Bool.not_eq_true', List.isEmpty_eq_false_iff, Ne, results_eq_nil_iff,
      List.eq_nil_iff_forall_not_mem]
    simp only [mem_emojis, not_forall, not_not]

/-- The table that the app fills. -/
def xiaolian : EmojiTable where
  get := initUMap
  clean emoji token h u hu := by
    rw [initUMap] at h
    split at h
    · have hall : (jstring "[xiaolian]").all (fun u => !isSurrogate u) = true := by decide
      rw [← Option.some.inj h] at hu
      simpa using List.all_eq_true.mp hall u hu
    · cases h
  two_le emoji token h := by
    rw [initUMap] at h
    split at h
    · rw [← Option.some.inj h]; decide
    · cases h

theorem isFind_rewrites_xiaolian :
    ∃ find, isFind xiaolian.get [0xD83D, 0xDE01] [0x61, 0xD83D, 0xDE01] 1 = .ok find ∧
      (find.isFind = true ↔ ∃ c ∈ codePoints [0xD83D, 0xDE01], 0x10000 ≤ c) ∧
      find.result = xiaolian.rewrite [0xD83D, 0xDE01] [0x61, 0xD83D, 0xDE01] :=
  have hadd : JString.substring [0x61, 0xD83D, 0xDE01] 1 (1 + 2) = .ok [0xD83D, 0xDE01] := rfl
  isFind_rewrites xiaolian hadd

end EmojiTable

end MyDemo.Im
