import Refsite.Text.Basic
import Refsite.Text.Utf8
namespace Refsite.Text

inductive ByteOrder where
  | little
  | big
  deriving DecidableEq, Repr

inductive DecodeFault where
  | malformed
  | unmarked
  | notText
  deriving DecidableEq, Repr

inductive Encoding where
  | ascii
  | latin1
  | windows1252
  | utf8
  | utf8Signed
  /-- Without an order, a mark at the front has to tell it. -/
  | utf16 (order : Option ByteOrder)
  | other (name : String)
  | notText
  deriving DecidableEq, Repr

/-- How a system reads the encodings whose tables are its own. -/
class Codecs where
  decode : (name : String) → List UInt8 → Except DecodeFault (List Char)

namespace Encoding

def names : List (Encoding × List String) :=
  [(.ascii,
     ["646", "ansi_x3.4_1968", "ansi_x3.4_1986", "ansi_x3_4_1968", "ascii", "cp367", "csascii",
      "ibm367", "iso646_us", "iso_646.irv_1991", "iso_ir_6", "us", "us_ascii"]),
   (.latin1,
     ["8859", "charmap", "cp819", "csisolatin1", "ibm819", "iso8859", "iso8859_1", "iso_8859_1",
      "iso_8859_1_1987", "iso_ir_100", "l1", "latin", "latin1", "latin_1"]),
   (.windows1252,
     ["1252", "cp1252", "windows_1252"]),
   (.utf8,
     ["cp65001", "u8", "utf", "utf8", "utf8_ucs2", "utf8_ucs4", "utf_8"]),
   (.utf8Signed,
     ["utf_8_sig"]),
   (.utf16 none,
     ["u16", "utf16", "utf_16"]),
   (.utf16 (some .little),
     ["unicodelittleunmarked", "utf_16_le", "utf_16le"]),
   (.utf16 (some .big),
     ["unicodebigunmarked", "utf_16_be", "utf_16be"]),
   (.notText,
     ["base64", "base64_codec", "base_64", "bz2", "bz2_codec", "hex", "hex_codec", "quopri",
      "quopri_codec", "quoted_printable", "quotedprintable", "rot13", "rot_13", "uu", "uu_codec",
      "zip", "zlib", "zlib_codec"])]

private def otherNames1 : List String :=
  ["037", "1026", "1125", "1140", "1250", "1251", "1253", "1254", "1255", "1256", "1257", "1258",
   "273", "424", "437", "500", "775", "850", "852", "855", "857", "858", "860", "861", "862",
   "863", "864", "865", "866", "869", "932", "936", "949", "950", "arabic", "asmo_708", "big5",
   "big5_hkscs", "big5_tw", "big5hkscs", "chinese", "cp037", "cp1006", "cp1026",
   "cp1051", "cp1125", "cp1140", "cp1250", "cp1251", "cp1253", "cp1254", "cp1255", "cp1256",
   "cp1257", "cp1258", "cp1361", "cp154", "cp273", "cp424", "cp437", "cp500", "cp720", "cp737",
   "cp775", "cp850", "cp852", "cp855", "cp856", "cp857", "cp858", "cp860", "cp861", "cp862",
   "cp863", "cp864", "cp865", "cp866", "cp866u", "cp869", "cp874", "cp875", "cp932", "cp936",
   "cp949", "cp950", "cp_gr", "cp_is", "csbig5", "csibm037"]

private def otherNames2 : List String :=
  ["csibm1026", "csibm273", "csibm424", "csibm500", "csibm855", "csibm857", "csibm858",
   "csibm860", "csibm861", "csibm863", "csibm864", "csibm865", "csibm866", "csibm869",
   "csiso2022jp", "csiso2022kr", "csiso58gb231280", "csisolatin2", "csisolatin3", "csisolatin4",
   "csisolatin5", "csisolatin6", "csisolatinarabic", "csisolatincyrillic", "csisolatingreek",
   "csisolatinhebrew", "cskoi8r", "cspc775baltic", "cspc850multilingual", "cspc862latinhebrew",
   "cspc8codepage437", "cspcp852", "csptcp154", "csshiftjis", "cyrillic", "cyrillic_asian",
   "ebcdic_cp_be", "ebcdic_cp_ca", "ebcdic_cp_ch", "ebcdic_cp_he", "ebcdic_cp_nl",
   "ebcdic_cp_us", "ebcdic_cp_wt", "ecma_114", "ecma_118", "elot_928", "euc_cn", "euc_jis2004",
   "euc_jis_2004", "euc_jisx0213", "euc_jp", "euc_kr", "euccn", "eucgb2312_cn", "eucjis2004",
   "eucjisx0213", "eucjp", "euckr", "gb18030", "gb18030_2000", "gb2312", "gb2312_1980",
   "gb2312_80", "gbk", "greek", "greek8", "hebrew", "hkscs", "hp_roman8", "hz", "hz_gb",
   "hz_gb_2312", "hzgb", "ibm037", "ibm039", "ibm1026", "ibm1051", "ibm1125", "ibm1140",
   "ibm273", "ibm424", "ibm437", "ibm500", "ibm775", "ibm850", "ibm852", "ibm855", "ibm857",
   "ibm858", "ibm860"]

private def otherNames3 : List String :=
  ["ibm861", "ibm862", "ibm863", "ibm864", "ibm865", "ibm866", "ibm869", "idna", "iso2022_jp",
   "iso2022_jp_1", "iso2022_jp_2", "iso2022_jp_2004", "iso2022_jp_3", "iso2022_jp_ext",
   "iso2022_kr", "iso2022jp", "iso2022jp_1", "iso2022jp_2", "iso2022jp_2004", "iso2022jp_3",
   "iso2022jp_ext", "iso2022kr", "iso8859_10", "iso8859_11", "iso8859_13", "iso8859_14",
   "iso8859_15", "iso8859_16", "iso8859_2", "iso8859_3", "iso8859_4", "iso8859_5", "iso8859_6",
   "iso8859_7", "iso8859_8", "iso8859_9", "iso_2022_jp", "iso_2022_jp_1", "iso_2022_jp_2",
   "iso_2022_jp_2004", "iso_2022_jp_3", "iso_2022_jp_ext", "iso_2022_kr", "iso_8859_10",
   "iso_8859_10_1992", "iso_8859_11", "iso_8859_11_2001", "iso_8859_13", "iso_8859_14",
   "iso_8859_14_1998", "iso_8859_15", "iso_8859_16", "iso_8859_16_2001", "iso_8859_2",
   "iso_8859_2_1987", "iso_8859_3", "iso_8859_3_1988", "iso_8859_4", "iso_8859_4_1988",
   "iso_8859_5", "iso_8859_5_1988", "iso_8859_6", "iso_8859_6_1987", "iso_8859_7",
   "iso_8859_7_1987", "iso_8859_8", "iso_8859_8_1988", "iso_8859_9", "iso_8859_9_1989",
   "iso_celtic", "iso_ir_101", "iso_ir_109", "iso_ir_110", "iso_ir_126", "iso_ir_127",
   "iso_ir_138", "iso_ir_144", "iso_ir_148", "iso_ir_157", "iso_ir_166", "iso_ir_199",
   "iso_ir_226", "iso_ir_58", "jisx0213", "johab", "koi8_r", "koi8_t", "koi8_u", "korean",
   "ks_c_5601"]

private def otherNames4 : List String :=
  ["ks_c_5601_1987", "ks_x_1001", "ksc5601", "ksx1001", "kz1048", "kz_1048", "l10", "l2", "l3",
   "l4", "l5", "l6", "l7", "l8", "l9", "latin10", "latin2", "latin3", "latin4", "latin5",
   "latin6", "latin7", "latin8", "latin9", "mac_arabic", "mac_centeuro", "mac_croatian",
   "mac_cyrillic", "mac_farsi", "mac_greek", "mac_iceland", "mac_latin2", "mac_roman",
   "mac_romanian", "mac_turkish", "maccentraleurope", "maccyrillic", "macgreek", "maciceland",
   "macintosh", "maclatin2", "macroman", "macturkish", "ms1361", "ms932", "ms936", "ms949",
   "ms950", "ms_kanji", "mskanji", "palmos", "pt154", "ptcp154", "punycode", "r8",
   "raw_unicode_escape", "rk1048", "roman8", "ruscii", "s_jis", "s_jis_2004", "s_jisx0213",
   "shift_jis", "shift_jis_2004", "shift_jisx0213", "shiftjis", "shiftjis2004", "shiftjisx0213",
   "sjis", "sjis_2004", "sjisx0213", "strk1048_2002", "thai", "tis620", "tis_620", "tis_620_0",
   "tis_620_2529_0", "tis_620_2529_1", "u32", "u7", "u_jis", "uhc", "ujis", "undefined",
   "unicode_1_1_utf_7", "unicode_escape", "utf32", "utf7", "utf_32", "utf_32_be"]

private def otherNames5 : List String :=
  ["utf_32_le", "utf_32be", "utf_32le", "utf_7", "windows_1250", "windows_1251", "windows_1253",
   "windows_1254", "windows_1255", "windows_1256", "windows_1257", "windows_1258",
   "x_mac_japanese", "x_mac_korean", "x_mac_simp_chinese", "x_mac_trad_chinese"]

def otherNames : List String :=
  otherNames1 ++ otherNames2 ++ otherNames3 ++ otherNames4 ++ otherNames5

def properNames : List String :=
  ["base64_codec", "bz2_codec", "euc_jis_2004", "euc_jisx0213", "euc_jp", "euc_kr", "hex_codec",
   "hp_roman8", "iso2022_jp", "iso2022_jp_1", "iso2022_jp_2", "iso2022_jp_2004", "iso2022_jp_3",
   "iso2022_jp_ext", "iso2022_kr", "iso8859_10", "iso8859_11", "iso8859_13", "iso8859_14",
   "iso8859_15", "iso8859_16", "iso8859_2", "iso8859_3", "iso8859_4", "iso8859_5", "iso8859_6",
   "iso8859_7", "iso8859_8", "iso8859_9", "koi8_r", "koi8_t", "koi8_u", "latin_1", "mac_arabic",
   "mac_croatian", "mac_cyrillic", "mac_farsi", "mac_greek", "mac_iceland", "mac_latin2",
   "mac_roman", "mac_romanian", "mac_turkish", "quopri_codec", "raw_unicode_escape", "rot_13",
   "shift_jis", "shift_jis_2004", "shift_jisx0213", "tis_620", "unicode_escape", "utf_16",
   "utf_16_be", "utf_16_le", "utf_32", "utf_32_be", "utf_32_le", "utf_7", "utf_8", "utf_8_sig",
   "uu_codec", "zlib_codec"]

def isNameMark (c : Char) : Bool := c.isAlphanum || c == '.'

/-- A name in lower case, with a low line for each run of other marks between two that count. -/
def plainNameFrom : (started gap : Bool) → List Char → List Char
  | _, _, [] => []
  | started, gap, c :: text =>
    if isNameMark c then
      (if started && gap then ['_'] else []) ++ c.toLower :: plainNameFrom true false text
    else plainNameFrom started true text

def plainName (name : String) : String := onChars (plainNameFrom false false) name

def ofPlainName? (name : String) : Option Encoding :=
  match names.find? fun entry => entry.2.contains name with
  | some (encoding, _) => some encoding
  | none => if otherNames.contains name then some (other name) else none

/-- The encoding of a name. Points in the name may stand for low lines, but not in a proper name. -/
def ofName? (name : String) : Option Encoding :=
  let plain := plainName name
  let withLines := onChars (List.map fun c => if c == '.' then '_' else c) plain
  if name.toList.contains '\x00' then none
  else if properNames.contains withLines then ofPlainName? plain
  else (ofPlainName? plain).or (ofPlainName? withLines)

def windowsMarks : List Nat :=
  [0x20AC, 0, 0x201A, 0x0192, 0x201E, 0x2026, 0x2020, 0x2021, 0x02C6, 0x2030, 0x0160, 0x2039,
   0x0152, 0, 0x017D, 0, 0, 0x2018, 0x2019, 0x201C, 0x201D, 0x2022, 0x2013, 0x2014, 0x02DC, 0x2122,
   0x0161, 0x203A, 0x0153, 0, 0x017E, 0x0178]

def asciiChar? (b : UInt8) : Option Char := if b < 0x80 then some (Char.ofNat b.toNat) else none

def windowsChar? (b : UInt8) : Option Char :=
  if b < 0x80 || 0xA0 ≤ b then some (Char.ofNat b.toNat)
  else
    match windowsMarks.getD (b.toNat - 0x80) 0 with
    | 0 => none
    | n => some (Char.ofNat n)

/-- The sixteen-bit units of some bytes, which have to come in pairs. -/
def units? (order : ByteOrder) : List UInt8 → Option (List Nat)
  | [] => some []
  | [_] => none
  | a :: b :: bytes =>
    let unit := match order with
      | .little => a.toNat + 256 * b.toNat
      | .big => 256 * a.toNat + b.toNat
    (units? order bytes).map (unit :: ·)

/-- The characters of units: a high surrogate has to be followed by a low one, and only there may a
low one stand. -/
def ofUnits? : List Nat → Option (List Char)
  | [] => some []
  | u :: units =>
    if u < 0xD800 || 0xE000 ≤ u then (ofUnits? units).map (Char.ofNat u :: ·)
    else
      match units with
      | v :: units =>
        if u < 0xDC00 && 0xDC00 ≤ v && v < 0xE000 then
          let c := Char.ofNat (0x10000 + 1024 * (u - 0xD800) + (v - 0xDC00))
          (ofUnits? units).map (c :: ·)
        else none
      | [] => none

def decodeUnits? (order : ByteOrder) (bytes : List UInt8) : Option (List Char) :=
  (units? order bytes).bind ofUnits?

def ofOption : Option (List Char) → Except DecodeFault (List Char)
  | some text => .ok text
  | none => .error .malformed

def decode [Codecs] (encoding : Encoding) (bytes : List UInt8) : Except DecodeFault (List Char) :=
  match encoding with
  | notText => .error .notText
  | other name => Codecs.decode name bytes
  | ascii => ofOption (bytes.mapM asciiChar?)
  | latin1 => .ok (bytes.map fun b => Char.ofNat b.toNat)
  | windows1252 => ofOption (bytes.mapM windowsChar?)
  | utf8 => ofOption (Utf8.decode? bytes)
  | utf8Signed =>
    match bytes with
    | [0xEF] | [0xEF, 0xBB] => .ok []
    | 0xEF :: 0xBB :: 0xBF :: bytes => ofOption (Utf8.decode? bytes)
    | bytes => ofOption (Utf8.decode? bytes)
  | utf16 (some order) => ofOption (decodeUnits? order bytes)
  | utf16 none =>
    match bytes with
    | [] => .ok []
    | 0xFF :: 0xFE :: bytes => ofOption (decodeUnits? .little bytes)
    | 0xFE :: 0xFF :: bytes => ofOption (decodeUnits? .big bytes)
    | bytes => (ofOption (decodeUnits? .little bytes)).bind fun _ => .error .unmarked

end Encoding

end Refsite.Text
