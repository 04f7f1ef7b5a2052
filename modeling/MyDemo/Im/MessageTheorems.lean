import MyDemo.Im.Lemmas.Matches
import Mathlib.Data.List.Forall2

/-!
# Where the emoticons of a message go
-/

namespace MyDemo.Im

/-! ## Spans on their tokens -/

def known (emojiList : EmojiList) (str : JString) : List MatchResult :=
  (results emoticonPattern str).filter (fun m => (emojiList.get m.group).isSome)

def MatchResult.span (m : MatchResult) : Span := ⟨m.start, m.stop⟩

def Span.text (str : JString) (s : Span) : JString := (str.drop s.start.toNat).take (s.stop - s.start).toNat

/-- The spans are those of the known matches; each covers its token and no other span. -/
structure OnTokens (emojiList : EmojiList) (str : JString) (spans : List Span) : Prop where
  intervals : spans = (known emojiList str).map MatchResult.span
  covers : List.Forall₂ (fun s m => s.text str = m.group) spans (known emojiList str)
  disjoint : spans.Pairwise (fun s s' => s.stop ≤ s'.start)

theorem located_known (emojiList : EmojiList) (str : JString) : Located str 0 (known emojiList str) :=
  (located_results emoticonPattern str).filter _

theorem MatchResult.text_span {str : JString} {m : MatchResult} (h : m.group <+: str.drop m.start) :
    m.span.text str = m.group := by
  have hlen : (m.span.stop - m.span.start).toNat = m.group.length := by
    simp only [span, stop]; omega
  rw [Span.text, hlen]
  exact (List.prefix_iff_eq_take.mp h).symm

theorem onTokens_iff {emojiList : EmojiList} {str : JString} {spans : List Span} :
    OnTokens emojiList str spans ↔ spans = (known emojiList str).map MatchResult.span := by
  refine ⟨OnTokens.intervals, ?_⟩
  rintro rfl
  have hloc := located_known emojiList str
  refine ⟨rfl, ?_, ?_⟩
  · rw [List.forall₂_map_left_iff, List.forall₂_same]
    exact fun m hm => MatchResult.text_span (hloc.occurs_of_mem hm)
  · rw [List.pairwise_map]
    exact hloc.pairwise.imp (fun h => Int.ofNat_le.mpr h)

/-! ## The copy that shrinks -/

def between (str : JString) : ℕ → List MatchResult → JString
  | _, [] => []
  | pos, m :: ms => (str.drop pos).take (m.start - pos) ++ between str m.stop ms

/-- Before each match of `ms`, with those before it cut out of the text, there is no other copy of it. -/
def Clear (str pre : JString) (pos : ℕ) (ms : List MatchResult) : Prop :=
  ∀ xs m ys, ms = xs ++ m :: ys →
    let kept := pre ++ between str pos (xs ++ [m])
    ∀ p < kept.length, ¬ m.group <+: (kept ++ str.drop m.start).drop p

theorem clear_cons {str pre : JString} {pos : ℕ} {m : MatchResult} {ms : List MatchResult} :
    Clear str pre pos (m :: ms) ↔
      (let kept := pre ++ (str.drop pos).take (m.start - pos)
       ∀ p < kept.length, ¬ m.group <+: (kept ++ str.drop m.start).drop p) ∧
      Clear str (pre ++ (str.drop pos).take (m.start - pos)) m.stop ms := by
  constructor
  · intro h
    refine ⟨by simpa [between] using h [] m ms rfl, fun xs m' ys hms => ?_⟩
    simpa [between] using h (m :: xs) m' ys (congrArg (m :: ·) hms)
  · rintro ⟨hm, hms⟩ xs m' ys heq
    cases xs with
    | nil =>
        obtain ⟨rfl, rfl⟩ := List.cons.inj heq
        simpa [between] using hm
    | cons x xs =>
        obtain ⟨rfl, rfl⟩ := List.cons.inj heq
        simpa [between] using hms xs m' ys rfl

theorem EmojiList.getD_ne_zero_iff (emojiList : EmojiList) (token : JString) :
    (emojiList.get token).getD 0 ≠ 0 ↔ (emojiList.get token).isSome := by
  cases h : emojiList.get token with
  | none => simp
  | some id => simpa using emojiList.get_ne_zero token id h

theorem findEmoticonLoop_filter (emojiList : EmojiList) (message : JString) (allEmojiLength : ℤ)
    (ms : List MatchResult) :
    findEmoticonLoop emojiList message allEmojiLength ms =
      findEmoticonLoop emojiList message allEmojiLength
        (ms.filter (fun m => (emojiList.get m.group).isSome)) := by
  induction ms generalizing message allEmojiLength with
  | nil => rfl
  | cons m ms ih =>
      rw [List.filter_cons]
      split
      · next hm =>
          have hid := (emojiList.getD_ne_zero_iff m.group).mpr hm
          simp only [findEmoticonLoop, if_neg hid, ih]
      · next hm =>
          have hid := not_ne_iff.mp (mt (emojiList.getD_ne_zero_iff m.group).mp hm)
          simp only [findEmoticonLoop, if_pos hid, ih]

/-- As long as the spans are right, the copy is what was kept of the text before `pos` and all of the
text after it. -/
theorem findEmoticonLoop_eq_iff {emojiList : EmojiList} {str : JString} {pos : ℕ} {ms : List MatchResult}
    (hloc : Located str pos ms) (hknown : ∀ m ∈ ms, (emojiList.get m.group).isSome)
    (pre : JString) {allEmojiLength : ℤ} (hlen : pre.length + allEmojiLength = pos) :
    findEmoticonLoop emojiList (pre ++ str.drop pos) allEmojiLength ms = ms.map MatchResult.span ↔
      Clear str pre pos ms := by
  induction hloc generalizing pre allEmojiLength with
  | nil => simp [findEmoticonLoop, Clear]
  | @cons pos m ms le inside occurs tail ih =>
      have hid := (emojiList.getD_ne_zero_iff m.group).mpr (hknown m (by simp))
      obtain ⟨gap, hgap⟩ : ∃ gap, gap = (str.drop pos).take (m.start - pos) := ⟨_, rfl⟩
      have hgaplen : gap.length = m.start - pos := by simp [hgap]; omega
      have hcopy : pre ++ str.drop pos = (pre ++ gap) ++ (m.group ++ str.drop m.stop) := by
        rw [(Located.cons le inside occurs tail).drop_eq, ← hgap, List.append_assoc]
      obtain ⟨i, hindex⟩ := Search.exists_indexOf (pre ++ gap) m.group (str.drop m.stop)
      have hfirst : i = (pre ++ gap).length ↔
          ∀ p < (pre ++ gap).length, ¬ m.group <+: (pre ++ gap ++ str.drop m.start).drop p := by
        rw [MatchResult.drop_start occurs, ← Search.indexOf_eq_length_iff, hindex, Option.some.injEq]
      rw [clear_cons, ← hgap, ← hfirst, hcopy]
      have hspan : (⟨i + allEmojiLength, i + allEmojiLength + m.group.length⟩ : Span) = m.span ↔
          i = (pre ++ gap).length := by
        rw [MatchResult.span, Span.mk.injEq, MatchResult.stop, List.length_append, hgaplen]
        omega
      simp only [findEmoticonLoop, if_neg hid, JString.indexOf, JString.replaceFirst, hindex, List.map_cons,
        List.cons.injEq, hspan]
      refine and_congr_right ?_
      rintro rfl
      rw [List.take_left, List.append_nil, ← List.drop_drop, List.drop_left, List.drop_left]
      refine ih (fun m' hm' => hknown m' (by simp [hm'])) (pre ++ gap) ?_
      rw [List.length_append, hgaplen, MatchResult.stop]
      omega

/-- No known match has another copy of its text before it in the message from which the known matches
before it are cut out. -/
def NoEarlierCopy (emojiList : EmojiList) (str : JString) : Prop := Clear str [] 0 (known emojiList str)

/-- The spans sit on their tokens exactly when no token has an earlier copy. -/
theorem findEmoticon_iff (emojiList : EmojiList) (str : JString) :
    OnTokens emojiList str (findEmoticon emojiList str) ↔ NoEarlierCopy emojiList str := by
  rw [onTokens_iff, findEmoticon, findEmoticonLoop_filter]
  exact findEmoticonLoop_eq_iff (located_known emojiList str)
    (fun m hm => (List.mem_filter.mp hm).2) [] rfl

theorem unknown_group_draws_span :
    ¬ OnTokens (initEmojiList 1 (by decide)) (jstring "[ab[xiaolian][xiaolian]")
      (findEmoticon (initEmojiList 1 (by decide)) (jstring "[ab[xiaolian][xiaolian]")) := by
  rw [onTokens_iff]
  decide

end MyDemo.Im
