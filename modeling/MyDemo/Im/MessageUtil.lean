import MyDemo.Java
import MyDemo.Lib.Regex

/-!
# Emoticons in chat messages

`findEmoticon` and `isFind` of `MessageUtil.kt`. Loading the picture is left out: what is kept of it is the interval
for which it is going to set a span.
-/

namespace MyDemo.Im

/-! ## Pattern and Matcher -/

/-- What `java.util.regex` tells about one match, places counted in code units. -/
structure MatchResult where
  start : ℕ
  group : JString
  deriving DecidableEq, Repr

def MatchResult.stop (m : MatchResult) : ℕ := m.start + m.group.length

def MatchResult.place (pos : ℕ) : List (Regex.Found ℕ) → List MatchResult
  | [] => []
  | f :: fs =>
      let m : MatchResult := ⟨pos + (Utf16.encode f.skipped).length, Utf16.encode f.group⟩
      m :: place m.stop fs

def results (pattern : Regex ℕ) (str : JString) : List MatchResult :=
  MatchResult.place 0 (pattern.findAll (Utf16.codePoints str))

def dot (c : ℕ) : Bool := c ∉ [0x0A, 0x0D, 0x85, 0x2028, 0x2029]

/-- `\[[^\[](.+?)\]` -/
def emoticonPattern : Regex ℕ :=
  .seq (.one (· == '['.toNat)) (.seq (.one (· != '['.toNat)) (.seq (.lazyPlus dot) (.one (· == ']'.toNat))))

/-! ## MessageUtil -/

/-- `emojiList()`: the drawables of the emoticons. No resource has the id 0. -/
structure EmojiList where
  get : JString → Option JInt
  get_ne_zero : ∀ token id, get token = some id → id ≠ 0

structure Span where
  start : ℤ
  stop : ℤ
  deriving DecidableEq, Repr

/-- The rest of the loop over `matcher.find()`. `message` is the copy that shrinks. -/
def findEmoticonLoop (emojiList : EmojiList) (message : JString) (allEmojiLength : ℤ) :
    List MatchResult → List Span
  | [] => []
  | m :: ms =>
      let id := (emojiList.get m.group).getD 0
      if id = 0 then
        findEmoticonLoop emojiList message allEmojiLength ms
      else
        let start := message.indexOf m.group + allEmojiLength
        let stop := start + m.group.length
        ⟨start, stop⟩ :: findEmoticonLoop emojiList (message.replaceFirst m.group [])
          (allEmojiLength + m.group.length) ms

def findEmoticon (emojiList : EmojiList) (str : JString) : List Span :=
  findEmoticonLoop emojiList str 0 (results emoticonPattern str)

def initEmojiList (icon_emoji_xiaolian : JInt) (h : icon_emoji_xiaolian ≠ 0) : EmojiList where
  get token := if token = jstring "[xiaolian]" then some icon_emoji_xiaolian else none
  get_ne_zero token id hid := by
    split at hid
    · exact Option.some.inj hid ▸ h
    · cases hid

/-! ## Emoji in what is typed -/

/-- `[^\u0000-\uFFFF]` -/
def emojiPattern : Regex ℕ := .one (fun c => !decide (c ≤ 0xFFFF))

structure Find where
  isFind : Bool
  result : JString
  deriving DecidableEq, Repr

/-- The variables of the loop over `matcher.find()`. -/
structure Finding where
  hasEmoji : Bool
  result : JString
  str : JString

def Finding.next (uMap : JString → Option JString) (s : Finding) (m : MatchResult) : Finding :=
  let result := (uMap m.group).getD []
  { hasEmoji := true
    result := result
    str := if result ≠ [] then s.str.replace m.group result else s.str }

/-- What is inserted into the `StringBuffer` is not used, but the place has to be in it. -/
def isFind (uMap : JString → Option JString) (add message : JString) (start : ℤ) : Except Exn Find := do
  let s := (results emojiPattern add).foldl (Finding.next uMap) ⟨false, add, message⟩
  let _ ← s.str.insert start s.result
  return ⟨s.hasEmoji, s.str⟩

def initUMap (emoji : JString) : Option JString :=
  if emoji = [0xD83D, 0xDE01] then some (jstring "[xiaolian]") else none

end MyDemo.Im
