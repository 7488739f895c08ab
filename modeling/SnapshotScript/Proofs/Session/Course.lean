import Mathlib.Data.List.Induction
import SnapshotScript.Console

/-!
# The course of a session

A session is fed the lines of its input one after the other.  `Session.after?` is the session once
it has been fed some lines.  What is fed to it is the text of a line without its line feed
(`lineFeed_not_mem_of_mem_byteLines`).
-/

namespace SnapshotScript

/-! ### Lines of an input -/

/-- Lines hold no line feeds, if neither those that are finished nor the one that is not do. -/
theorem lineFeed_not_mem_byteLinesFrom (bytes : List UInt8) (line : List UInt8)
    (lines : List (List UInt8)) (hline : lineFeed ∉ line) (hlines : ∀ l ∈ lines, lineFeed ∉ l) :
    ∀ l ∈ byteLinesFrom line lines bytes, lineFeed ∉ l := by
  induction bytes generalizing line lines with
  | nil =>
    intro l hl
    rw [byteLinesFrom, List.mem_reverse] at hl
    split at hl
    · exact hlines l hl
    · rcases List.mem_cons.1 hl with rfl | hl
      · rwa [List.mem_reverse]
      · exact hlines l hl
  | cons b bytes ih =>
    rw [byteLinesFrom]
    split
    · have hended : lineFeed ∉ if line.head? = some carriageReturn then line.tail else line := by
        split
        · exact fun hmem => hline (List.mem_of_mem_tail hmem)
        · exact hline
      refine ih [] _ (List.not_mem_nil) (List.forall_mem_cons.2 ⟨?_, hlines⟩)
      rwa [List.mem_reverse]
    · next hb =>
      refine ih (b :: line) lines ?_ hlines
      rw [List.mem_cons, not_or]
      exact ⟨Ne.symm hb, hline⟩

/-- The lines of a stream hold no line feeds. -/
theorem lineFeed_not_mem_of_mem_byteLines {bytes line : List UInt8} (h : line ∈ byteLines bytes) :
    lineFeed ∉ line :=
  lineFeed_not_mem_byteLinesFrom bytes [] [] List.not_mem_nil nofun line h

/-- A line feed is encoded as itself. -/
theorem lineFeed_mem_of_decodeText? {bytes : List UInt8} {text : String}
    (h : decodeText? bytes = some text) (hmem : '\n' ∈ text.toList) : lineFeed ∈ bytes := by
  have hbytes : text.toByteArray = bytes.toByteArray := by
    unfold decodeText? String.fromUTF8? at h
    split at h
    · cases h; rfl
    · cases h
  have hencode : (text.toList.flatMap String.utf8EncodeChar).toByteArray = bytes.toByteArray := by
    rw [← hbytes, ← String.utf8Encode_toList]
    rfl
  have hlist := congrArg (fun a => a.data.toList) hencode
  simp only [List.toList_data_toByteArray] at hlist
  rw [← hlist, List.mem_flatMap]
  exact ⟨'\n', hmem, by decide⟩

namespace Session

/-! ### Feeding lines -/

/-- The session after the lines, if none of them ends it. -/
def after? (depth : Nat) (lines : List String) : Option Session :=
  lines.foldlM (fun s line => (s.feed line).map Prod.snd) (.new depth)

/-- One line more is fed to the session after the others. -/
theorem after?_concat (depth : Nat) (lines : List String) (line : String) :
    after? depth (lines ++ [line]) =
      (after? depth lines).bind fun s => (s.feed line).map Prod.snd := by
  simp only [after?, List.foldlM_append, List.foldlM_cons, List.foldlM_nil, bind_pure]
  rfl

/-- A property of sessions and the lines fed to them, which a new session has and each line
preserves, holds after all lines. -/
theorem after?_induction {P : List String → Session → Prop} {depth : Nat} (hnew : P [] (.new depth))
    (hfeed : ∀ lines s line written s', after? depth lines = some s → P lines s →
      s.feed line = some (written, s') → P (lines ++ [line]) s')
    {lines : List String} {s : Session} (h : after? depth lines = some s) : P lines s := by
  induction lines using List.reverseRecOn generalizing s with
  | nil =>
    cases h
    exact hnew
  | append_singleton lines line ih =>
    rw [after?_concat] at h
    obtain ⟨s', hs', hs⟩ := Option.bind_eq_some_iff.1 h
    obtain ⟨⟨written, s''⟩, hfed, rfl⟩ := Option.map_eq_some_iff.1 hs
    exact hfeed lines s' line written _ hs' (ih hs') hfed

/-- What is fed to a session as a line of an input holds no line feed. -/
theorem lineFeed_not_mem_of_input {bytes : List UInt8} {line : String}
    (h : some line ∈ (byteLines bytes).map decodeText?) : '\n' ∉ line.toList := by
  obtain ⟨l, hl, hline⟩ := List.mem_map.1 h
  exact fun hmem => lineFeed_not_mem_of_mem_byteLines hl (lineFeed_mem_of_decodeText? hline hmem)

end Session

end SnapshotScript
