import Formulary.Text.Intervals

/-!
# Case tables

The case mappings of Unicode 17.0. Most letters have one form in the other case, which has them as
its form: they take turns, or stand in rows at a fixed distance. A few characters have a form that
has another one, and a few expand to several characters. Beside them stand the properties
Cased and Case_Ignorable, which decide where a word ends.
-/

namespace Formulary.Text

/-- Code points `lo`, `lo + step`, ... up to `hi`, each mapped `shift` further. -/
structure CaseRun where
  lo : Nat
  hi : Nat
  step : Nat
  shift : Int

/-- Ranges in which each letter of upper case stands before its form in lower case. -/
def alternating : List (Nat × Nat) := everySecond 0
  [256, 48, 2, 6, 1, 16, 1, 46, 1, 6, 3, 4, 1, 2, 2, 2, 4, 2, 5, 2, 6, 6, 1, 2, 3, 2, 1, 2, 2, 4, 1,
    2, 2, 2, 15, 16, 1, 18, 4, 2, 2, 40, 2, 18, 7, 2, 4, 2, 3, 10, 288, 4, 2, 2, 96, 24, 7, 2, 1, 2,
    100, 34, 8, 54, 1, 14, 1, 96, 5977, 2, 373, 150, 10, 96, 643, 2, 2779, 2, 5, 6, 5, 2, 1, 2, 9,
    100, 7, 4, 3, 2, 31052, 46, 18, 28, 134, 14, 2, 62, 9, 4, 1, 10, 3, 2, 3, 4, 2, 20, 10, 16, 3,
    4, 1, 16, 25, 2]

/-- Letters of lower case in a row, by the first and their number, with the distance to their forms
in upper case. -/
def letterRows : List (Nat × Nat × Int) :=
  [(0x61, 26, -32), (0xE0, 23, -32), (0xF8, 7, -32), (0xFF, 1, 121), (0x180, 1, 195),
    (0x195, 1, 97), (0x19A, 1, 163), (0x19B, 1, 42561), (0x19E, 1, 130), (0x1BF, 1, 56),
    (0x1C6, 1, -2), (0x1C9, 1, -2), (0x1CC, 1, -2), (0x1DD, 1, -79), (0x1F3, 1, -2),
    (0x23F, 2, 10815), (0x250, 1, 10783), (0x251, 1, 10780), (0x252, 1, 10782), (0x253, 1, -210),
    (0x254, 1, -206), (0x256, 2, -205), (0x259, 1, -202), (0x25B, 1, -203), (0x25C, 1, 42319),
    (0x260, 1, -205), (0x261, 1, 42315), (0x263, 1, -207), (0x264, 1, 42343), (0x265, 1, 42280),
    (0x266, 1, 42308), (0x268, 1, -209), (0x269, 1, -211), (0x26A, 1, 42308), (0x26B, 1, 10743),
    (0x26C, 1, 42305), (0x26F, 1, -211), (0x271, 1, 10749), (0x272, 1, -213), (0x275, 1, -214),
    (0x27D, 1, 10727), (0x280, 1, -218), (0x282, 1, 42307), (0x283, 1, -218), (0x287, 1, 42282),
    (0x288, 1, -218), (0x289, 1, -69), (0x28A, 2, -217), (0x28C, 1, -71), (0x292, 1, -219),
    (0x29D, 1, 42261), (0x29E, 1, 42258), (0x37B, 3, 130), (0x3AC, 1, -38), (0x3AD, 3, -37),
    (0x3B1, 17, -32), (0x3C3, 9, -32), (0x3CC, 1, -64), (0x3CD, 2, -63), (0x3D7, 1, -8),
    (0x3F2, 1, 7), (0x3F3, 1, -116), (0x430, 32, -32), (0x450, 16, -80), (0x4CF, 1, -15),
    (0x561, 38, -48), (0x10D0, 43, 3008), (0x10FD, 3, 3008), (0x13F8, 6, -8), (0x1D79, 1, 35332),
    (0x1D7D, 1, 3814), (0x1D8E, 1, 35384), (0x1F00, 8, 8), (0x1F10, 6, 8), (0x1F20, 8, 8),
    (0x1F30, 8, 8), (0x1F40, 6, 8), (0x1F51, 1, 8), (0x1F53, 1, 8), (0x1F55, 1, 8), (0x1F57, 1, 8),
    (0x1F60, 8, 8), (0x1F70, 2, 74), (0x1F72, 4, 86), (0x1F76, 2, 100), (0x1F78, 2, 128),
    (0x1F7A, 2, 112), (0x1F7C, 2, 126), (0x1FB0, 2, 8), (0x1FD0, 2, 8), (0x1FE0, 2, 8),
    (0x1FE5, 1, 7), (0x214E, 1, -28), (0x2170, 16, -16), (0x24D0, 26, -26), (0x2C30, 48, -48),
    (0x2C65, 1, -10795), (0x2C66, 1, -10792), (0x2D00, 38, -7264), (0x2D27, 1, -7264),
    (0x2D2D, 1, -7264), (0xA794, 1, 48), (0xAB53, 1, -928), (0xAB70, 80, -38864), (0xFF41, 26, -32),
    (0x10428, 40, -40), (0x104D8, 36, -40), (0x10597, 11, -39), (0x105A3, 15, -39),
    (0x105B3, 7, -39), (0x105BB, 2, -39), (0x10CC0, 51, -64), (0x10D70, 22, -32),
    (0x118C0, 32, -32), (0x16E60, 32, -32), (0x16EBB, 25, -27), (0x1E922, 34, -34)]

/-- Rows of characters with an upper-case form that has another lower-case form. -/
def upperRows : List (Nat × Nat × Int) :=
  [(0xB5, 1, 743), (0x131, 1, -232), (0x17F, 1, -300), (0x1C5, 1, -1), (0x1C8, 1, -1),
    (0x1CB, 1, -1), (0x1F2, 1, -1), (0x345, 1, 84), (0x3C2, 1, -31), (0x3D0, 1, -62),
    (0x3D1, 1, -57), (0x3D5, 1, -47), (0x3D6, 1, -54), (0x3F0, 1, -86), (0x3F1, 1, -80),
    (0x3F5, 1, -96), (0x1C80, 1, -6254), (0x1C81, 1, -6253), (0x1C82, 1, -6244), (0x1C83, 2, -6242),
    (0x1C85, 1, -6243), (0x1C86, 1, -6236), (0x1C87, 1, -6181), (0x1C88, 1, 35266),
    (0x1E9B, 1, -59), (0x1FBE, 1, -7205)]

/-- Rows of characters with a lower-case form that has another upper-case form. -/
def lowerRows : List (Nat × Nat × Int) :=
  [(0x1C5, 1, 1), (0x1C8, 1, 1), (0x1CB, 1, 1), (0x1F2, 1, 1), (0x3F4, 1, -60), (0x1E9E, 1, -7615),
    (0x1F88, 8, -8), (0x1F98, 8, -8), (0x1FA8, 8, -8), (0x1FBC, 1, -9), (0x1FCC, 1, -9),
    (0x1FFC, 1, -9), (0x2126, 1, -7517), (0x212A, 1, -8383), (0x212B, 1, -8262)]

namespace CaseRun

/-- Characters in a row. -/
def ofRow : Nat × Nat × Int → CaseRun
  | (lo, count, shift) => ⟨lo, lo + count - 1, 1, shift⟩

/-- The mapping back. -/
def back (r : CaseRun) : CaseRun :=
  ⟨(r.lo + r.shift).toNat, (r.hi + r.shift).toNat, r.step, -r.shift⟩

end CaseRun

/-- Lower-case letters that are the lower-case forms of their upper-case forms. -/
def letterRuns : List CaseRun :=
  alternating.map (fun (lo, hi) ↦ ⟨lo + 1, hi, 2, -1⟩) ++ letterRows.map .ofRow

/-- Upper-case mappings to one character. -/
def upperRuns : List CaseRun := letterRuns ++ upperRows.map .ofRow

/-- Rows of letters with an iota below, which stands after them in upper case, with the distance to
their forms without it. -/
def iotaRows : List (Nat × Nat × Int) :=
  [(0x1F80, 8, -120), (0x1F88, 8, -128), (0x1F90, 8, -104), (0x1F98, 8, -112), (0x1FA0, 8, -56),
    (0x1FA8, 8, -64), (0x1FB2, 1, 8), (0x1FB3, 1, -7202), (0x1FB4, 1, -7214), (0x1FBC, 1, -7211),
    (0x1FC2, 1, 8), (0x1FC3, 1, -7212), (0x1FC4, 1, -7227), (0x1FCC, 1, -7221), (0x1FF2, 1, 8),
    (0x1FF3, 1, -7242), (0x1FF4, 1, -7269), (0x1FFC, 1, -7251)]

/-- Upper-case mappings to several characters. -/
def upperExpansions : List (Nat × List Nat) :=
  (iotaRows.flatMap fun (lo, count, shift) ↦
    (List.range' lo count).map fun (n : Nat) ↦ (n, [(n + shift).toNat, 0x399])) ++
  [(0xDF, [0x53, 0x53]), (0x149, [0x2BC, 0x4E]), (0x1F0, [0x4A, 0x30C]),
    (0x390, [0x399, 0x308, 0x301]), (0x3B0, [0x3A5, 0x308, 0x301]), (0x587, [0x535, 0x552]),
    (0x1E96, [0x48, 0x331]), (0x1E97, [0x54, 0x308]), (0x1E98, [0x57, 0x30A]),
    (0x1E99, [0x59, 0x30A]), (0x1E9A, [0x41, 0x2BE]), (0x1F50, [0x3A5, 0x313]),
    (0x1F52, [0x3A5, 0x313, 0x300]), (0x1F54, [0x3A5, 0x313, 0x301]),
    (0x1F56, [0x3A5, 0x313, 0x342]), (0x1FB6, [0x391, 0x342]), (0x1FB7, [0x391, 0x342, 0x399]),
    (0x1FC6, [0x397, 0x342]), (0x1FC7, [0x397, 0x342, 0x399]), (0x1FD2, [0x399, 0x308, 0x300]),
    (0x1FD3, [0x399, 0x308, 0x301]), (0x1FD6, [0x399, 0x342]), (0x1FD7, [0x399, 0x308, 0x342]),
    (0x1FE2, [0x3A5, 0x308, 0x300]), (0x1FE3, [0x3A5, 0x308, 0x301]), (0x1FE4, [0x3A1, 0x313]),
    (0x1FE6, [0x3A5, 0x342]), (0x1FE7, [0x3A5, 0x308, 0x342]), (0x1FF6, [0x3A9, 0x342]),
    (0x1FF7, [0x3A9, 0x342, 0x399]), (0xFB00, [0x46, 0x46]), (0xFB01, [0x46, 0x49]),
    (0xFB02, [0x46, 0x4C]), (0xFB03, [0x46, 0x46, 0x49]), (0xFB04, [0x46, 0x46, 0x4C]),
    (0xFB05, [0x53, 0x54]), (0xFB06, [0x53, 0x54]), (0xFB13, [0x544, 0x546]),
    (0xFB14, [0x544, 0x535]), (0xFB15, [0x544, 0x53B]), (0xFB16, [0x54E, 0x546]),
    (0xFB17, [0x544, 0x53D])]

/-- Lower-case mappings to one character. -/
def lowerRuns : List CaseRun := letterRuns.map .back ++ lowerRows.map .ofRow

/-- Lower-case mappings to several characters. -/
def lowerExpansions : List (Nat × List Nat) :=
  [(0x130, [0x69, 0x307])]

/-- Code point ranges of the Cased property. -/
def casedRanges : List (Nat × Nat) := everySecond 0
  [65, 26, 6, 26, 47, 1, 10, 1, 4, 1, 5, 23, 1, 31, 1, 195, 1, 4, 4, 208, 2, 35, 7, 2, 30, 5, 96, 1,
    42, 4, 2, 2, 2, 4, 1, 1, 6, 1, 1, 3, 1, 1, 1, 20, 1, 83, 1, 139, 8, 166, 1, 38, 9, 41, 2839, 38,
    1, 1, 5, 1, 2, 43, 1, 4, 672, 86, 2, 6, 2178, 11, 5, 43, 2, 3, 64, 192, 64, 278, 2, 6, 2, 38, 2,
    6, 2, 8, 1, 1, 1, 1, 1, 1, 1, 31, 2, 53, 1, 7, 1, 1, 3, 3, 1, 7, 3, 4, 2, 6, 4, 13, 5, 3, 1, 7,
    116, 1, 13, 1, 16, 13, 101, 1, 4, 1, 2, 10, 1, 1, 3, 5, 6, 1, 1, 1, 1, 1, 1, 4, 1, 6, 4, 1, 2,
    4, 5, 5, 4, 1, 17, 32, 3, 2, 817, 52, 1814, 229, 6, 4, 3, 2, 12, 38, 1, 1, 5, 1, 30994, 46, 18,
    30, 132, 102, 3, 4, 1, 77, 20, 6, 1, 3, 821, 43, 1, 14, 6, 80, 20288, 7, 12, 5, 1033, 26, 6, 26,
    1189, 80, 96, 36, 4, 36, 116, 11, 1, 15, 1, 7, 1, 2, 1, 11, 1, 15, 1, 7, 1, 2, 451, 1, 2, 3, 1,
    42, 1, 9, 1221, 51, 13, 51, 93, 22, 10, 22, 2842, 64, 21856, 64, 32, 25, 2, 25, 25900, 85, 1,
    71, 1, 2, 2, 1, 2, 2, 2, 4, 1, 12, 1, 1, 1, 7, 1, 65, 1, 4, 2, 8, 1, 7, 1, 28, 1, 4, 1, 5, 1, 1,
    3, 7, 1, 340, 2, 25, 1, 25, 1, 31, 1, 25, 1, 31, 1, 25, 1, 31, 1, 25, 1, 31, 1, 25, 1, 8, 1844,
    10, 1, 20, 6, 6, 261, 62, 2194, 68, 2028, 26, 6, 26, 6, 26]

/-- Code point ranges of the Case_Ignorable property. -/
def caseIgnorableRanges : List (Nat × Nat) := everySecond 0
  [39, 1, 6, 1, 11, 1, 35, 1, 1, 1, 71, 1, 4, 1, 1, 1, 4, 1, 2, 2, 503, 192, 4, 2, 4, 1, 9, 2, 1, 1,
    251, 7, 207, 1, 5, 1, 49, 45, 1, 1, 1, 2, 1, 2, 1, 1, 44, 1, 11, 6, 10, 11, 1, 1, 35, 1, 10, 21,
    16, 1, 101, 8, 1, 10, 1, 4, 33, 1, 1, 1, 30, 27, 91, 11, 58, 11, 4, 1, 2, 1, 24, 24, 43, 3, 44,
    1, 7, 2, 5, 9, 41, 58, 55, 1, 1, 1, 4, 8, 4, 1, 3, 7, 10, 2, 13, 1, 15, 1, 58, 1, 4, 4, 8, 1,
    20, 2, 26, 1, 2, 2, 57, 1, 4, 2, 4, 2, 2, 3, 3, 1, 30, 2, 3, 1, 11, 2, 57, 1, 4, 5, 1, 2, 4, 1,
    20, 2, 22, 6, 1, 1, 58, 1, 2, 1, 1, 4, 8, 1, 7, 2, 11, 2, 30, 1, 61, 1, 12, 1, 50, 1, 3, 1, 55,
    1, 1, 3, 5, 3, 1, 4, 7, 2, 11, 2, 29, 1, 58, 1, 2, 1, 6, 1, 5, 2, 20, 2, 28, 2, 57, 2, 4, 4, 8,
    1, 20, 2, 29, 1, 72, 1, 7, 3, 1, 1, 90, 1, 2, 7, 11, 9, 98, 1, 2, 9, 9, 1, 1, 7, 73, 2, 27, 1,
    1, 1, 1, 1, 55, 14, 1, 5, 1, 2, 5, 11, 1, 36, 9, 1, 102, 4, 1, 6, 1, 2, 2, 2, 25, 2, 4, 3, 16,
    4, 13, 1, 2, 2, 6, 1, 15, 1, 94, 1, 608, 3, 946, 3, 29, 2, 30, 2, 30, 2, 64, 2, 1, 7, 8, 1, 2,
    11, 3, 1, 5, 1, 45, 5, 51, 1, 65, 2, 34, 1, 118, 3, 4, 2, 9, 1, 6, 3, 219, 2, 2, 1, 58, 1, 1, 7,
    1, 1, 1, 1, 2, 8, 6, 10, 2, 1, 39, 1, 8, 46, 2, 12, 20, 4, 48, 1, 1, 5, 1, 1, 5, 1, 40, 9, 12,
    2, 32, 4, 2, 2, 1, 3, 56, 1, 1, 2, 3, 1, 1, 3, 58, 8, 2, 2, 64, 6, 82, 3, 1, 13, 1, 7, 4, 1, 6,
    1, 3, 2, 50, 63, 13, 1, 34, 101, 445, 1, 1, 3, 11, 3, 13, 3, 13, 3, 13, 2, 12, 5, 8, 2, 10, 1,
    2, 1, 2, 5, 49, 5, 1, 10, 1, 1, 13, 1, 16, 13, 51, 33, 2955, 2, 113, 3, 125, 1, 15, 1, 96, 32,
    47, 1, 469, 1, 36, 4, 3, 5, 5, 1, 93, 6, 93, 3, 28438, 1, 1250, 6, 270, 1, 98, 4, 1, 10, 1, 1,
    28, 4, 80, 2, 14, 34, 78, 1, 23, 3, 102, 4, 3, 2, 8, 1, 3, 1, 4, 1, 25, 2, 5, 1, 151, 2, 26, 18,
    13, 1, 38, 8, 25, 11, 46, 3, 48, 1, 2, 4, 2, 2, 17, 1, 21, 2, 66, 6, 2, 2, 2, 2, 12, 1, 8, 1,
    35, 1, 11, 1, 51, 1, 1, 3, 2, 2, 5, 2, 1, 1, 27, 1, 14, 2, 5, 2, 1, 1, 100, 5, 9, 3, 121, 1, 2,
    1, 4, 1, 20272, 1, 147, 17, 573, 16, 3, 1, 12, 16, 34, 1, 2, 1, 169, 1, 7, 1, 6, 1, 11, 1, 35,
    1, 1, 1, 47, 1, 45, 2, 67, 1, 21, 3, 513, 1, 226, 1, 149, 5, 1029, 6, 1, 42, 1, 9, 582, 3, 1, 2,
    5, 4, 40, 3, 4, 1, 165, 2, 573, 4, 38, 1, 26, 5, 1, 1, 315, 2, 24, 1, 52, 6, 70, 11, 49, 4, 123,
    1, 54, 15, 41, 1, 2, 2, 10, 3, 49, 4, 2, 2, 2, 1, 4, 1, 10, 1, 50, 3, 36, 5, 1, 8, 62, 1, 12, 2,
    52, 9, 10, 4, 2, 1, 95, 3, 2, 1, 1, 2, 6, 1, 2, 1, 157, 1, 3, 8, 21, 2, 57, 2, 3, 1, 37, 7, 3,
    5, 70, 6, 13, 1, 1, 1, 1, 1, 14, 2, 85, 8, 2, 3, 1, 1, 23, 1, 84, 6, 1, 1, 4, 2, 1, 2, 238, 4,
    6, 2, 1, 2, 27, 2, 85, 8, 2, 1, 1, 2, 106, 1, 1, 1, 2, 6, 1, 1, 101, 1, 1, 1, 2, 4, 1, 5, 259,
    9, 1, 2, 256, 2, 1, 1, 4, 1, 144, 4, 2, 2, 4, 1, 32, 10, 40, 6, 2, 4, 8, 1, 9, 6, 2, 3, 46, 13,
    1, 2, 198, 1, 1, 3, 1, 1, 201, 7, 1, 6, 1, 1, 82, 22, 2, 7, 1, 2, 1, 2, 122, 6, 3, 1, 1, 2, 1,
    7, 1, 1, 72, 2, 3, 1, 1, 1, 65, 1, 281, 2, 11, 2, 52, 5, 5, 1, 1, 1, 23, 1, 5333, 17, 6, 15,
    11464, 12, 3, 3, 2496, 5, 59, 7, 9, 4, 508, 3, 40, 2, 482, 1, 63, 17, 64, 2, 1, 2, 13, 2, 16380,
    4, 1, 7, 1, 2, 3230, 2, 1, 4, 4700, 46, 2, 23, 544, 3, 9, 16, 2, 7, 30, 4, 148, 3, 1979, 55, 4,
    50, 8, 1, 14, 1, 22, 5, 1, 15, 1360, 7, 1, 17, 2, 7, 1, 2, 1, 5, 5, 62, 33, 1, 160, 14, 368, 1,
    61, 4, 507, 5, 254, 2, 243, 1, 2, 1, 7, 2, 5, 1, 9, 1, 464, 7, 109, 8, 2735, 5, 789505, 1, 30,
    96, 128, 240]

end Formulary.Text
