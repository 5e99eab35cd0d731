/-! # Upper and lower case

The simple case mappings, one character to one character. They are stored as runs of characters that
move by the same distance; every second character of a run may be left out, which is how alphabets
that alternate between the cases are laid out. -/

namespace Pseudocode.Text

/-- The characters `first`, `first + stride`, … up to `last` map to the one `distance` further on. -/
structure Shift where
  first : Nat
  last : Nat
  stride : Nat
  distance : Int

namespace Shift

def one (n : Nat) (distance : Int) : Shift :=
  ⟨n, n, 1, distance⟩

def covers (s : Shift) (n : Nat) : Bool :=
  s.first ≤ n && n ≤ s.last && (n - s.first) % s.stride == 0

/-- Moves `c` by the first run that holds it. -/
def apply (table : List Shift) (c : Char) : Char :=
  match table.find? (·.covers c.toNat) with
  | some s => Char.ofNat (c.toNat + s.distance).toNat
  | none => c

end Shift

/-- Lower case to upper case, from U+0080 on. -/
def upperShifts : List Shift :=
  [.one 0x00B5 743, ⟨0x00E0, 0x00F6, 1, -32⟩, ⟨0x00F8, 0x00FE, 1, -32⟩, .one 0x00FF 121,
   ⟨0x0101, 0x012F, 2, -1⟩, .one 0x0131 (-232), ⟨0x0133, 0x0137, 2, -1⟩, ⟨0x013A, 0x0148, 2, -1⟩,
   ⟨0x014B, 0x0177, 2, -1⟩, ⟨0x017A, 0x017E, 2, -1⟩, .one 0x017F (-300), .one 0x0180 195,
   ⟨0x0183, 0x0185, 2, -1⟩, .one 0x0188 (-1), .one 0x018C (-1), .one 0x0192 (-1), .one 0x0195 97,
   .one 0x0199 (-1), .one 0x019A 163, .one 0x019E 130, ⟨0x01A1, 0x01A5, 2, -1⟩, .one 0x01A8 (-1),
   .one 0x01AD (-1), .one 0x01B0 (-1), ⟨0x01B4, 0x01B6, 2, -1⟩, .one 0x01B9 (-1), .one 0x01BD (-1),
   .one 0x01BF 56, .one 0x01C5 (-1), .one 0x01C6 (-2), .one 0x01C8 (-1), .one 0x01C9 (-2),
   .one 0x01CB (-1), .one 0x01CC (-2), ⟨0x01CE, 0x01DC, 2, -1⟩, .one 0x01DD (-79),
   ⟨0x01DF, 0x01EF, 2, -1⟩, .one 0x01F2 (-1), .one 0x01F3 (-2), .one 0x01F5 (-1),
   ⟨0x01F9, 0x021F, 2, -1⟩, ⟨0x0223, 0x0233, 2, -1⟩, .one 0x023C (-1), ⟨0x023F, 0x0240, 1, 10815⟩,
   .one 0x0242 (-1), ⟨0x0247, 0x024F, 2, -1⟩, .one 0x0250 10783, .one 0x0251 10780,
   .one 0x0252 10782, .one 0x0253 (-210), .one 0x0254 (-206), ⟨0x0256, 0x0257, 1, -205⟩,
   .one 0x0259 (-202), .one 0x025B (-203), .one 0x025C 42319, .one 0x0260 (-205), .one 0x0261 42315,
   .one 0x0263 (-207), .one 0x0265 42280, .one 0x0266 42308, .one 0x0268 (-209), .one 0x0269 (-211),
   .one 0x026A 42308, .one 0x026B 10743, .one 0x026C 42305, .one 0x026F (-211), .one 0x0271 10749,
   .one 0x0272 (-213), .one 0x0275 (-214), .one 0x027D 10727, .one 0x0280 (-218), .one 0x0282 42307,
   .one 0x0283 (-218), .one 0x0287 42282, .one 0x0288 (-218), .one 0x0289 (-69),
   ⟨0x028A, 0x028B, 1, -217⟩, .one 0x028C (-71), .one 0x0292 (-219), .one 0x029D 42261,
   .one 0x029E 42258, .one 0x0345 84, ⟨0x0371, 0x0373, 2, -1⟩, .one 0x0377 (-1),
   ⟨0x037B, 0x037D, 1, 130⟩, .one 0x03AC (-38), ⟨0x03AD, 0x03AF, 1, -37⟩, ⟨0x03B1, 0x03C1, 1, -32⟩,
   .one 0x03C2 (-31), ⟨0x03C3, 0x03CB, 1, -32⟩, .one 0x03CC (-64), ⟨0x03CD, 0x03CE, 1, -63⟩,
   .one 0x03D0 (-62), .one 0x03D1 (-57), .one 0x03D5 (-47), .one 0x03D6 (-54), .one 0x03D7 (-8),
   ⟨0x03D9, 0x03EF, 2, -1⟩, .one 0x03F0 (-86), .one 0x03F1 (-80), .one 0x03F2 7, .one 0x03F3 (-116),
   .one 0x03F5 (-96), .one 0x03F8 (-1), .one 0x03FB (-1), ⟨0x0430, 0x044F, 1, -32⟩,
   ⟨0x0450, 0x045F, 1, -80⟩, ⟨0x0461, 0x0481, 2, -1⟩, ⟨0x048B, 0x04BF, 2, -1⟩,
   ⟨0x04C2, 0x04CE, 2, -1⟩, .one 0x04CF (-15), ⟨0x04D1, 0x052F, 2, -1⟩, ⟨0x0561, 0x0586, 1, -48⟩,
   ⟨0x10D0, 0x10FA, 1, 3008⟩, ⟨0x10FD, 0x10FF, 1, 3008⟩, ⟨0x13F8, 0x13FD, 1, -8⟩,
   .one 0x1C80 (-6254), .one 0x1C81 (-6253), .one 0x1C82 (-6244), ⟨0x1C83, 0x1C84, 1, -6242⟩,
   .one 0x1C85 (-6243), .one 0x1C86 (-6236), .one 0x1C87 (-6181), .one 0x1C88 35266,
   .one 0x1D79 35332, .one 0x1D7D 3814, .one 0x1D8E 35384, ⟨0x1E01, 0x1E95, 2, -1⟩,
   .one 0x1E9B (-59), ⟨0x1EA1, 0x1EFF, 2, -1⟩, ⟨0x1F00, 0x1F07, 1, 8⟩, ⟨0x1F10, 0x1F15, 1, 8⟩,
   ⟨0x1F20, 0x1F27, 1, 8⟩, ⟨0x1F30, 0x1F37, 1, 8⟩, ⟨0x1F40, 0x1F45, 1, 8⟩, ⟨0x1F51, 0x1F57, 2, 8⟩,
   ⟨0x1F60, 0x1F67, 1, 8⟩, ⟨0x1F70, 0x1F71, 1, 74⟩, ⟨0x1F72, 0x1F75, 1, 86⟩,
   ⟨0x1F76, 0x1F77, 1, 100⟩, ⟨0x1F78, 0x1F79, 1, 128⟩, ⟨0x1F7A, 0x1F7B, 1, 112⟩,
   ⟨0x1F7C, 0x1F7D, 1, 126⟩, ⟨0x1F80, 0x1F87, 1, 8⟩, ⟨0x1F90, 0x1F97, 1, 8⟩, ⟨0x1FA0, 0x1FA7, 1, 8⟩,
   ⟨0x1FB0, 0x1FB1, 1, 8⟩, .one 0x1FB3 9, .one 0x1FBE (-7205), .one 0x1FC3 9,
   ⟨0x1FD0, 0x1FD1, 1, 8⟩, ⟨0x1FE0, 0x1FE1, 1, 8⟩, .one 0x1FE5 7, .one 0x1FF3 9, .one 0x214E (-28),
   ⟨0x2170, 0x217F, 1, -16⟩, .one 0x2184 (-1), ⟨0x24D0, 0x24E9, 1, -26⟩, ⟨0x2C30, 0x2C5F, 1, -48⟩,
   .one 0x2C61 (-1), .one 0x2C65 (-10795), .one 0x2C66 (-10792), ⟨0x2C68, 0x2C6C, 2, -1⟩,
   .one 0x2C73 (-1), .one 0x2C76 (-1), ⟨0x2C81, 0x2CE3, 2, -1⟩, ⟨0x2CEC, 0x2CEE, 2, -1⟩,
   .one 0x2CF3 (-1), ⟨0x2D00, 0x2D25, 1, -7264⟩, .one 0x2D27 (-7264), .one 0x2D2D (-7264),
   ⟨0xA641, 0xA66D, 2, -1⟩, ⟨0xA681, 0xA69B, 2, -1⟩, ⟨0xA723, 0xA72F, 2, -1⟩,
   ⟨0xA733, 0xA76F, 2, -1⟩, ⟨0xA77A, 0xA77C, 2, -1⟩, ⟨0xA77F, 0xA787, 2, -1⟩, .one 0xA78C (-1),
   ⟨0xA791, 0xA793, 2, -1⟩, .one 0xA794 48, ⟨0xA797, 0xA7A9, 2, -1⟩, ⟨0xA7B5, 0xA7C3, 2, -1⟩,
   ⟨0xA7C8, 0xA7CA, 2, -1⟩, .one 0xA7D1 (-1), ⟨0xA7D7, 0xA7D9, 2, -1⟩, .one 0xA7F6 (-1),
   .one 0xAB53 (-928), ⟨0xAB70, 0xABBF, 1, -38864⟩, ⟨0xFF41, 0xFF5A, 1, -32⟩,
   ⟨0x10428, 0x1044F, 1, -40⟩, ⟨0x104D8, 0x104FB, 1, -40⟩, ⟨0x10597, 0x105A1, 1, -39⟩,
   ⟨0x105A3, 0x105B1, 1, -39⟩, ⟨0x105B3, 0x105B9, 1, -39⟩, ⟨0x105BB, 0x105BC, 1, -39⟩,
   ⟨0x10CC0, 0x10CF2, 1, -64⟩, ⟨0x118C0, 0x118DF, 1, -32⟩, ⟨0x16E60, 0x16E7F, 1, -32⟩,
   ⟨0x1E922, 0x1E943, 1, -34⟩]

/-- Upper case to lower case, from U+0080 on. -/
def lowerShifts : List Shift :=
  [⟨0x00C0, 0x00D6, 1, 32⟩, ⟨0x00D8, 0x00DE, 1, 32⟩, ⟨0x0100, 0x012E, 2, 1⟩, .one 0x0130 (-199),
   ⟨0x0132, 0x0136, 2, 1⟩, ⟨0x0139, 0x0147, 2, 1⟩, ⟨0x014A, 0x0176, 2, 1⟩, .one 0x0178 (-121),
   ⟨0x0179, 0x017D, 2, 1⟩, .one 0x0181 210, ⟨0x0182, 0x0184, 2, 1⟩, .one 0x0186 206, .one 0x0187 1,
   ⟨0x0189, 0x018A, 1, 205⟩, .one 0x018B 1, .one 0x018E 79, .one 0x018F 202, .one 0x0190 203,
   .one 0x0191 1, .one 0x0193 205, .one 0x0194 207, .one 0x0196 211, .one 0x0197 209, .one 0x0198 1,
   .one 0x019C 211, .one 0x019D 213, .one 0x019F 214, ⟨0x01A0, 0x01A4, 2, 1⟩, .one 0x01A6 218,
   .one 0x01A7 1, .one 0x01A9 218, .one 0x01AC 1, .one 0x01AE 218, .one 0x01AF 1,
   ⟨0x01B1, 0x01B2, 1, 217⟩, ⟨0x01B3, 0x01B5, 2, 1⟩, .one 0x01B7 219, .one 0x01B8 1, .one 0x01BC 1,
   .one 0x01C4 2, .one 0x01C5 1, .one 0x01C7 2, .one 0x01C8 1, .one 0x01CA 2,
   ⟨0x01CB, 0x01DB, 2, 1⟩, ⟨0x01DE, 0x01EE, 2, 1⟩, .one 0x01F1 2, ⟨0x01F2, 0x01F4, 2, 1⟩,
   .one 0x01F6 (-97), .one 0x01F7 (-56), ⟨0x01F8, 0x021E, 2, 1⟩, .one 0x0220 (-130),
   ⟨0x0222, 0x0232, 2, 1⟩, .one 0x023A 10795, .one 0x023B 1, .one 0x023D (-163), .one 0x023E 10792,
   .one 0x0241 1, .one 0x0243 (-195), .one 0x0244 69, .one 0x0245 71, ⟨0x0246, 0x024E, 2, 1⟩,
   ⟨0x0370, 0x0372, 2, 1⟩, .one 0x0376 1, .one 0x037F 116, .one 0x0386 38, ⟨0x0388, 0x038A, 1, 37⟩,
   .one 0x038C 64, ⟨0x038E, 0x038F, 1, 63⟩, ⟨0x0391, 0x03A1, 1, 32⟩, ⟨0x03A3, 0x03AB, 1, 32⟩,
   .one 0x03CF 8, ⟨0x03D8, 0x03EE, 2, 1⟩, .one 0x03F4 (-60), .one 0x03F7 1, .one 0x03F9 (-7),
   .one 0x03FA 1, ⟨0x03FD, 0x03FF, 1, -130⟩, ⟨0x0400, 0x040F, 1, 80⟩, ⟨0x0410, 0x042F, 1, 32⟩,
   ⟨0x0460, 0x0480, 2, 1⟩, ⟨0x048A, 0x04BE, 2, 1⟩, .one 0x04C0 15, ⟨0x04C1, 0x04CD, 2, 1⟩,
   ⟨0x04D0, 0x052E, 2, 1⟩, ⟨0x0531, 0x0556, 1, 48⟩, ⟨0x10A0, 0x10C5, 1, 7264⟩, .one 0x10C7 7264,
   .one 0x10CD 7264, ⟨0x13A0, 0x13EF, 1, 38864⟩, ⟨0x13F0, 0x13F5, 1, 8⟩, ⟨0x1C90, 0x1CBA, 1, -3008⟩,
   ⟨0x1CBD, 0x1CBF, 1, -3008⟩, ⟨0x1E00, 0x1E94, 2, 1⟩, .one 0x1E9E (-7615), ⟨0x1EA0, 0x1EFE, 2, 1⟩,
   ⟨0x1F08, 0x1F0F, 1, -8⟩, ⟨0x1F18, 0x1F1D, 1, -8⟩, ⟨0x1F28, 0x1F2F, 1, -8⟩,
   ⟨0x1F38, 0x1F3F, 1, -8⟩, ⟨0x1F48, 0x1F4D, 1, -8⟩, ⟨0x1F59, 0x1F5F, 2, -8⟩,
   ⟨0x1F68, 0x1F6F, 1, -8⟩, ⟨0x1F88, 0x1F8F, 1, -8⟩, ⟨0x1F98, 0x1F9F, 1, -8⟩,
   ⟨0x1FA8, 0x1FAF, 1, -8⟩, ⟨0x1FB8, 0x1FB9, 1, -8⟩, ⟨0x1FBA, 0x1FBB, 1, -74⟩, .one 0x1FBC (-9),
   ⟨0x1FC8, 0x1FCB, 1, -86⟩, .one 0x1FCC (-9), ⟨0x1FD8, 0x1FD9, 1, -8⟩, ⟨0x1FDA, 0x1FDB, 1, -100⟩,
   ⟨0x1FE8, 0x1FE9, 1, -8⟩, ⟨0x1FEA, 0x1FEB, 1, -112⟩, .one 0x1FEC (-7), ⟨0x1FF8, 0x1FF9, 1, -128⟩,
   ⟨0x1FFA, 0x1FFB, 1, -126⟩, .one 0x1FFC (-9), .one 0x2126 (-7517), .one 0x212A (-8383),
   .one 0x212B (-8262), .one 0x2132 28, ⟨0x2160, 0x216F, 1, 16⟩, .one 0x2183 1,
   ⟨0x24B6, 0x24CF, 1, 26⟩, ⟨0x2C00, 0x2C2F, 1, 48⟩, .one 0x2C60 1, .one 0x2C62 (-10743),
   .one 0x2C63 (-3814), .one 0x2C64 (-10727), ⟨0x2C67, 0x2C6B, 2, 1⟩, .one 0x2C6D (-10780),
   .one 0x2C6E (-10749), .one 0x2C6F (-10783), .one 0x2C70 (-10782), .one 0x2C72 1, .one 0x2C75 1,
   ⟨0x2C7E, 0x2C7F, 1, -10815⟩, ⟨0x2C80, 0x2CE2, 2, 1⟩, ⟨0x2CEB, 0x2CED, 2, 1⟩, .one 0x2CF2 1,
   ⟨0xA640, 0xA66C, 2, 1⟩, ⟨0xA680, 0xA69A, 2, 1⟩, ⟨0xA722, 0xA72E, 2, 1⟩, ⟨0xA732, 0xA76E, 2, 1⟩,
   ⟨0xA779, 0xA77B, 2, 1⟩, .one 0xA77D (-35332), ⟨0xA77E, 0xA786, 2, 1⟩, .one 0xA78B 1,
   .one 0xA78D (-42280), ⟨0xA790, 0xA792, 2, 1⟩, ⟨0xA796, 0xA7A8, 2, 1⟩, .one 0xA7AA (-42308),
   .one 0xA7AB (-42319), .one 0xA7AC (-42315), .one 0xA7AD (-42305), .one 0xA7AE (-42308),
   .one 0xA7B0 (-42258), .one 0xA7B1 (-42282), .one 0xA7B2 (-42261), .one 0xA7B3 928,
   ⟨0xA7B4, 0xA7C2, 2, 1⟩, .one 0xA7C4 (-48), .one 0xA7C5 (-42307), .one 0xA7C6 (-35384),
   ⟨0xA7C7, 0xA7C9, 2, 1⟩, .one 0xA7D0 1, ⟨0xA7D6, 0xA7D8, 2, 1⟩, .one 0xA7F5 1,
   ⟨0xFF21, 0xFF3A, 1, 32⟩, ⟨0x10400, 0x10427, 1, 40⟩, ⟨0x104B0, 0x104D3, 1, 40⟩,
   ⟨0x10570, 0x1057A, 1, 39⟩, ⟨0x1057C, 0x1058A, 1, 39⟩, ⟨0x1058C, 0x10592, 1, 39⟩,
   ⟨0x10594, 0x10595, 1, 39⟩, ⟨0x10C80, 0x10CB2, 1, 64⟩, ⟨0x118A0, 0x118BF, 1, 32⟩,
   ⟨0x16E40, 0x16E5F, 1, 32⟩, ⟨0x1E900, 0x1E921, 1, 34⟩]

def upperChar (c : Char) : Char :=
  if c.toNat < 0x80 then c.toUpper else Shift.apply upperShifts c

def lowerChar (c : Char) : Char :=
  if c.toNat < 0x80 then c.toLower else Shift.apply lowerShifts c

def upper (s : String) : String :=
  s.map upperChar

def lower (s : String) : String :=
  s.map lowerChar

end Pseudocode.Text
