/-!
# Symbols

The characters of the larger groups of Unicode punctuation and symbols outside ASCII, which are
neither letters nor digits.  The controls that follow ASCII and the characters for private use are
among them.
-/

namespace SnapshotScript

/-- The code points of symbols outside ASCII, as closed ranges in ascending order. -/
def symbolRanges : List (Nat × Nat) :=
  [(0x80, 0xA9), (0xAB, 0xB1), (0xB4, 0xB4), (0xB6, 0xB8), (0xBB, 0xBB), (0xBF, 0xBF),
    (0xD7, 0xD7), (0xF7, 0xF7), (0x2C2, 0x2C5), (0x2D2, 0x2DF), (0x2000, 0x206F),
    (0x207A, 0x207E), (0x208A, 0x208E), (0x20A0, 0x20C0), (0x2100, 0x2101), (0x2103, 0x2106),
    (0x2108, 0x2109), (0x2116, 0x2118), (0x211E, 0x2123), (0x2190, 0x244A), (0x249C, 0x24B5),
    (0x2500, 0x2775), (0x2794, 0x2BFF), (0x2E00, 0x2E2E), (0x2E30, 0x3004), (0x3008, 0x3020),
    (0xE000, 0xF8FF), (0xFDFC, 0xFE6B), (0xFEFF, 0xFF0F), (0xFF1A, 0xFF20), (0xFF3B, 0xFF40),
    (0xFF5B, 0xFF65), (0xFFE0, 0xFFFD), (0x1F000, 0x1F0F5), (0x1F10D, 0x1F12F),
    (0x1F14A, 0x1F14F), (0x1F16A, 0x1F16F), (0x1F18A, 0x1FBCA)]

/-- Whether `c` is a symbol outside ASCII. -/
def isSymbol (c : Char) : Bool :=
  symbolRanges.any fun (first, last) => first ≤ c.toNat && c.toNat ≤ last

end SnapshotScript
