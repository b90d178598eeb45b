import DartData.Text.Basic

/-!
# Upper case

The full upper-case mapping of a character.  Most letters go to one letter; a few, such as `ß`
and the ligature `ﬁ`, go to several.  The mapping is a table of runs of letters that move by the
same distance, and a table of the letters that move alone or become several.
-/

namespace DartData

/-! ## §1. The two tables. -/

/-- A run of letters, every `step`-th from `first` to `last`, whose upper-case letters start at
    `target` and keep the same distances. -/
structure CaseRun where
  first : Nat
  last : Nat
  step : Nat
  target : Nat
  deriving DecidableEq, Repr

/-- The runs of letters beyond ASCII with one upper-case letter each. -/
def caseRuns : List CaseRun :=
  [⟨0xE0, 0xF6, 1, 0xC0⟩, ⟨0xF8, 0xFE, 1, 0xD8⟩, ⟨0x101, 0x12F, 2, 0x100⟩,
   ⟨0x133, 0x137, 2, 0x132⟩, ⟨0x13A, 0x148, 2, 0x139⟩, ⟨0x14B, 0x177, 2, 0x14A⟩,
   ⟨0x17A, 0x17E, 2, 0x179⟩, ⟨0x183, 0x185, 2, 0x182⟩, ⟨0x1A1, 0x1A5, 2, 0x1A0⟩,
   ⟨0x1B4, 0x1B6, 2, 0x1B3⟩, ⟨0x1CE, 0x1DC, 2, 0x1CD⟩, ⟨0x1DF, 0x1EF, 2, 0x1DE⟩,
   ⟨0x1F9, 0x21F, 2, 0x1F8⟩, ⟨0x223, 0x233, 2, 0x222⟩, ⟨0x23F, 0x240, 1, 0x2C7E⟩,
   ⟨0x247, 0x24F, 2, 0x246⟩, ⟨0x256, 0x257, 1, 0x189⟩, ⟨0x28A, 0x28B, 1, 0x1B1⟩,
   ⟨0x371, 0x373, 2, 0x370⟩, ⟨0x37B, 0x37D, 1, 0x3FD⟩, ⟨0x3AD, 0x3AF, 1, 0x388⟩,
   ⟨0x3B1, 0x3C1, 1, 0x391⟩, ⟨0x3C3, 0x3CB, 1, 0x3A3⟩, ⟨0x3CD, 0x3CE, 1, 0x38E⟩,
   ⟨0x3D9, 0x3EF, 2, 0x3D8⟩, ⟨0x430, 0x44F, 1, 0x410⟩, ⟨0x450, 0x45F, 1, 0x400⟩,
   ⟨0x461, 0x481, 2, 0x460⟩, ⟨0x48B, 0x4BF, 2, 0x48A⟩, ⟨0x4C2, 0x4CE, 2, 0x4C1⟩,
   ⟨0x4D1, 0x52F, 2, 0x4D0⟩, ⟨0x561, 0x586, 1, 0x531⟩, ⟨0x10D0, 0x10FA, 1, 0x1C90⟩,
   ⟨0x10FD, 0x10FF, 1, 0x1CBD⟩, ⟨0x13F8, 0x13FD, 1, 0x13F0⟩, ⟨0x1C83, 0x1C84, 1, 0x421⟩,
   ⟨0x1E01, 0x1E95, 2, 0x1E00⟩, ⟨0x1EA1, 0x1EFF, 2, 0x1EA0⟩, ⟨0x1F00, 0x1F07, 1, 0x1F08⟩,
   ⟨0x1F10, 0x1F15, 1, 0x1F18⟩, ⟨0x1F20, 0x1F27, 1, 0x1F28⟩, ⟨0x1F30, 0x1F37, 1, 0x1F38⟩,
   ⟨0x1F40, 0x1F45, 1, 0x1F48⟩, ⟨0x1F51, 0x1F57, 2, 0x1F59⟩, ⟨0x1F60, 0x1F67, 1, 0x1F68⟩,
   ⟨0x1F70, 0x1F71, 1, 0x1FBA⟩, ⟨0x1F72, 0x1F75, 1, 0x1FC8⟩, ⟨0x1F76, 0x1F77, 1, 0x1FDA⟩,
   ⟨0x1F78, 0x1F79, 1, 0x1FF8⟩, ⟨0x1F7A, 0x1F7B, 1, 0x1FEA⟩, ⟨0x1F7C, 0x1F7D, 1, 0x1FFA⟩,
   ⟨0x1FB0, 0x1FB1, 1, 0x1FB8⟩, ⟨0x1FD0, 0x1FD1, 1, 0x1FD8⟩, ⟨0x1FE0, 0x1FE1, 1, 0x1FE8⟩,
   ⟨0x2170, 0x217F, 1, 0x2160⟩, ⟨0x24D0, 0x24E9, 1, 0x24B6⟩, ⟨0x2C30, 0x2C5F, 1, 0x2C00⟩,
   ⟨0x2C68, 0x2C6C, 2, 0x2C67⟩, ⟨0x2C81, 0x2CE3, 2, 0x2C80⟩, ⟨0x2CEC, 0x2CEE, 2, 0x2CEB⟩,
   ⟨0x2D00, 0x2D25, 1, 0x10A0⟩, ⟨0xA641, 0xA66D, 2, 0xA640⟩, ⟨0xA681, 0xA69B, 2, 0xA680⟩,
   ⟨0xA723, 0xA72F, 2, 0xA722⟩, ⟨0xA733, 0xA76F, 2, 0xA732⟩, ⟨0xA77A, 0xA77C, 2, 0xA779⟩,
   ⟨0xA77F, 0xA787, 2, 0xA77E⟩, ⟨0xA791, 0xA793, 2, 0xA790⟩, ⟨0xA797, 0xA7A9, 2, 0xA796⟩,
   ⟨0xA7B5, 0xA7C3, 2, 0xA7B4⟩, ⟨0xA7C8, 0xA7CA, 2, 0xA7C7⟩, ⟨0xA7D7, 0xA7D9, 2, 0xA7D6⟩,
   ⟨0xAB70, 0xABBF, 1, 0x13A0⟩, ⟨0xFF41, 0xFF5A, 1, 0xFF21⟩, ⟨0x10428, 0x1044F, 1, 0x10400⟩,
   ⟨0x104D8, 0x104FB, 1, 0x104B0⟩, ⟨0x10597, 0x105BB, 2, 0x10570⟩, ⟨0x10598, 0x105A0, 2, 0x10571⟩,
   ⟨0x105A4, 0x105B0, 2, 0x1057D⟩, ⟨0x105B4, 0x105B8, 2, 0x1058D⟩, ⟨0x10CC0, 0x10CF2, 1, 0x10C80⟩,
   ⟨0x118C0, 0x118DF, 1, 0x118A0⟩, ⟨0x16E60, 0x16E7F, 1, 0x16E40⟩, ⟨0x1E922, 0x1E943, 1, 0x1E900⟩]

/-- The letters beyond ASCII that are in no run, each with its upper case behind it.  Where this is
    several characters, accents stand behind their letters. -/
def loneLetters : List Text := List.map String.toList
  ["µΜ", "ßSS", "ÿŸ", "ıI", "ŉʼN", "ſS", "ƀɃ", "ƈƇ", "ƌƋ", "ƒƑ", "ƕǶ", "ƙƘ", "ƚȽ", "ƞȠ", "ƨƧ",
   "ƭƬ", "ưƯ", "ƹƸ", "ƽƼ", "ƿǷ", "ǅǄ", "ǆǄ", "ǈǇ", "ǉǇ", "ǋǊ", "ǌǊ", "ǝƎ", "ǰJ̌", "ǲǱ", "ǳǱ",
   "ǵǴ", "ȼȻ", "ɂɁ", "ɐⱯ", "ɑⱭ", "ɒⱰ", "ɓƁ", "ɔƆ", "əƏ", "ɛƐ", "ɜꞫ", "ɠƓ", "ɡꞬ", "ɣƔ", "ɥꞍ", "ɦꞪ",
   "ɨƗ", "ɩƖ", "ɪꞮ", "ɫⱢ", "ɬꞭ", "ɯƜ", "ɱⱮ", "ɲƝ", "ɵƟ", "ɽⱤ", "ʀƦ", "ʂꟅ", "ʃƩ", "ʇꞱ", "ʈƮ", "ʉɄ",
   "ʌɅ", "ʒƷ", "ʝꞲ", "ʞꞰ", "ͅΙ", "ͷͶ", "ΐΪ́", "άΆ", "ΰΫ́", "ςΣ", "όΌ", "ϐΒ", "ϑΘ", "ϕΦ", "ϖΠ",
   "ϗϏ", "ϰΚ", "ϱΡ", "ϲϹ", "ϳͿ", "ϵΕ", "ϸϷ", "ϻϺ", "ӏӀ", "ևԵՒ", "ᲀВ", "ᲁД", "ᲂО", "ᲅТ", "ᲆЪ",
   "ᲇѢ", "ᲈꙊ", "ᵹꝽ", "ᵽⱣ", "ᶎꟆ", "ẖH̱", "ẗT̈", "ẘW̊", "ẙY̊", "ẚAʾ", "ẛṠ", "ὐΥ̓", "ὒΥ̓̀", "ὔΥ̓́",
   "ὖΥ̓͂", "ᾀἈΙ", "ᾁἉΙ", "ᾂἊΙ", "ᾃἋΙ", "ᾄἌΙ", "ᾅἍΙ", "ᾆἎΙ", "ᾇἏΙ", "ᾈἈΙ", "ᾉἉΙ", "ᾊἊΙ", "ᾋἋΙ",
   "ᾌἌΙ", "ᾍἍΙ", "ᾎἎΙ", "ᾏἏΙ", "ᾐἨΙ", "ᾑἩΙ", "ᾒἪΙ", "ᾓἫΙ", "ᾔἬΙ", "ᾕἭΙ", "ᾖἮΙ", "ᾗἯΙ", "ᾘἨΙ",
   "ᾙἩΙ", "ᾚἪΙ", "ᾛἫΙ", "ᾜἬΙ", "ᾝἭΙ", "ᾞἮΙ", "ᾟἯΙ", "ᾠὨΙ", "ᾡὩΙ", "ᾢὪΙ", "ᾣὫΙ", "ᾤὬΙ", "ᾥὭΙ",
   "ᾦὮΙ", "ᾧὯΙ", "ᾨὨΙ", "ᾩὩΙ", "ᾪὪΙ", "ᾫὫΙ", "ᾬὬΙ", "ᾭὭΙ", "ᾮὮΙ", "ᾯὯΙ", "ᾲᾺΙ", "ᾳΑΙ", "ᾴΆΙ",
   "ᾶΑ͂", "ᾷΑ͂Ι", "ᾼΑΙ", "ιΙ", "ῂῊΙ", "ῃΗΙ", "ῄΉΙ", "ῆΗ͂", "ῇΗ͂Ι", "ῌΗΙ", "ῒΪ̀", "ΐΪ́", "ῖΙ͂",
   "ῗΪ͂", "ῢΫ̀", "ΰΫ́", "ῤΡ̓", "ῥῬ", "ῦΥ͂", "ῧΫ͂", "ῲῺΙ", "ῳΩΙ", "ῴΏΙ", "ῶΩ͂", "ῷΩ͂Ι", "ῼΩΙ",
   "ⅎℲ", "ↄↃ", "ⱡⱠ", "ⱥȺ", "ⱦȾ", "ⱳⱲ", "ⱶⱵ", "ⳳⳲ", "ⴧჇ", "ⴭჍ", "ꞌꞋ", "ꞔꟄ", "ꟑꟐ", "ꟶꟵ", "ꭓꞳ",
   "ﬀFF", "ﬁFI", "ﬂFL", "ﬃFFI", "ﬄFFL", "ﬅST", "ﬆST", "ﬓՄՆ", "ﬔՄԵ", "ﬕՄԻ", "ﬖՎՆ", "ﬗՄԽ", "𐖼𐖕"]

/-! ## §2. The mapping. -/

/-- The upper-case letter that a run gives to a code point of it. -/
def CaseRun.upper? (r : CaseRun) (n : Nat) : Option Nat :=
  if r.first ≤ n ∧ n ≤ r.last ∧ (n - r.first) % r.step = 0 then some (r.target + (n - r.first))
  else none

/-- The upper case of a character: itself where it has none. -/
def upperCase (c : Char) : Text :=
  if c.toNat < 0x80 then [c.toUpper]
  else match loneLetters.find? (·.head? == some c) with
    | some letters => letters.tail
    | none => [((caseRuns.findSome? (·.upper? c.toNat)).map Char.ofNat).getD c]

end DartData
