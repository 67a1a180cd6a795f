set_option autoImplicit false

namespace LocaleLint.Encoding

inductive Codec
  | utf8
  | utf8Marked
  | utf16
  | utf16Little
  | utf16Big
  | utf32
  | utf32Little
  | utf32Big
  | ascii
  | latin1
  | windows1252
  -- Refuses every text.
  | undefined
  -- Another encoding of texts, not read here.
  | foreign
  -- A transformation of octets, no encoding of texts.
  | transformation
deriving Repr, DecidableEq, Inhabited

def isNameChar (c : Char) : Bool :=
  (decide ('0' ≤ c) && decide (c ≤ '9')) || (decide ('a' ≤ c) && decide (c ≤ 'z')) ||
    (decide ('A' ≤ c) && decide (c ≤ 'Z')) || c == '.'

def lowerChar (c : Char) : Char :=
  if 'A' ≤ c ∧ c ≤ 'Z' then Char.ofNat (c.toNat + 32) else c

def normalizeFrom (gap : Bool) : List Char → List Char
  | [] => []
  | c :: rest =>
      if isNameChar c then
        if gap then '_' :: lowerChar c :: normalizeFrom false rest
        else lowerChar c :: normalizeFrom false rest
      else normalizeFrom true rest

def normalizeName (name : List Char) : String :=
  String.ofList (normalizeFrom false (name.dropWhile (!isNameChar ·)))

def decodedNames : List (Codec × List String × List String) := [
  (.ascii, ["ascii"],
    ["646", "ansi_x3.4_1968", "ansi_x3_4_1968", "ansi_x3.4_1986", "cp367", "csascii", "ibm367",
    "iso646_us", "iso_646.irv_1991", "iso_ir_6", "us", "us_ascii"]),
  (.windows1252, ["cp1252"],
    ["1252", "windows_1252"]),
  (.latin1, ["iso8859_1", "latin_1"],
    ["8859", "cp819", "csisolatin1", "ibm819", "iso8859", "iso8859_1", "iso_8859_1",
    "iso_8859_1_1987", "iso_ir_100", "l1", "latin", "latin1"]),
  (.undefined, ["undefined"],
    []),
  (.utf16, ["utf_16"],
    ["u16", "utf16"]),
  (.utf16Big, ["utf_16_be"],
    ["unicodebigunmarked", "utf_16be"]),
  (.utf16Little, ["utf_16_le"],
    ["unicodelittleunmarked", "utf_16le"]),
  (.utf32, ["utf_32"],
    ["u32", "utf32"]),
  (.utf32Big, ["utf_32_be"],
    ["utf_32be"]),
  (.utf32Little, ["utf_32_le"],
    ["utf_32le"]),
  (.utf8, ["utf_8"],
    ["u8", "utf", "utf8", "utf8_ucs2", "utf8_ucs4", "cp65001"]),
  (.utf8Marked, ["utf_8_sig"],
    [])]

def otherTextNames : List String := [
  "big5", "big5hkscs", "charmap", "cp037", "cp1006", "cp1026", "cp1125", "cp1140", "cp1250",
  "cp1251", "cp1253", "cp1254", "cp1255", "cp1256", "cp1257", "cp1258", "cp273", "cp424",
  "cp437", "cp500", "cp720", "cp737", "cp775", "cp850", "cp852", "cp855", "cp856", "cp857",
  "cp858", "cp860", "cp861", "cp862", "cp863", "cp864", "cp865", "cp866", "cp869", "cp874",
  "cp875", "cp932", "cp949", "cp950", "euc_jis_2004", "euc_jisx0213", "euc_jp", "euc_kr",
  "gb18030", "gb2312", "gbk", "hp_roman8", "hz", "idna", "iso2022_jp", "iso2022_jp_1",
  "iso2022_jp_2", "iso2022_jp_2004", "iso2022_jp_3", "iso2022_jp_ext", "iso2022_kr",
  "iso8859_10", "iso8859_11", "iso8859_13", "iso8859_14", "iso8859_15", "iso8859_16",
  "iso8859_2", "iso8859_3", "iso8859_4", "iso8859_5", "iso8859_6", "iso8859_7", "iso8859_8",
  "iso8859_9", "johab", "koi8_r", "koi8_t", "koi8_u", "kz1048", "mac_arabic", "mac_croatian",
  "mac_cyrillic", "mac_farsi", "mac_greek", "mac_iceland", "mac_latin2", "mac_roman",
  "mac_romanian", "mac_turkish", "palmos", "ptcp154", "punycode", "raw_unicode_escape",
  "shift_jis", "shift_jis_2004", "shift_jisx0213", "tis_620", "unicode_escape", "utf_7"]

def otherTextAliases : List String := [
  "big5_tw", "csbig5", "x_mac_trad_chinese", "big5_hkscs", "hkscs", "037", "csibm037",
  "ebcdic_cp_ca", "ebcdic_cp_nl", "ebcdic_cp_us", "ebcdic_cp_wt", "ibm037", "ibm039", "1026",
  "csibm1026", "ibm1026", "1125", "ibm1125", "cp866u", "ruscii", "1140", "ibm1140", "1250",
  "windows_1250", "1251", "windows_1251", "1253", "windows_1253", "1254", "windows_1254", "1255",
  "windows_1255", "1256", "windows_1256", "1257", "windows_1257", "1258", "windows_1258", "273",
  "ibm273", "csibm273", "424", "csibm424", "ebcdic_cp_he", "ibm424", "437", "cspc8codepage437",
  "ibm437", "500", "csibm500", "ebcdic_cp_be", "ebcdic_cp_ch", "ibm500", "775", "cspc775baltic",
  "ibm775", "850", "cspc850multilingual", "ibm850", "852", "cspcp852", "ibm852", "855",
  "csibm855", "ibm855", "857", "csibm857", "ibm857", "858", "csibm858", "ibm858", "860",
  "csibm860", "ibm860", "861", "cp_is", "csibm861", "ibm861", "862", "cspc862latinhebrew",
  "ibm862", "863", "csibm863", "ibm863", "864", "csibm864", "ibm864", "865", "csibm865",
  "ibm865", "866", "csibm866", "ibm866", "869", "cp_gr", "csibm869", "ibm869", "932", "ms932",
  "mskanji", "ms_kanji", "949", "ms949", "uhc", "950", "ms950", "jisx0213", "eucjis2004",
  "euc_jis2004", "eucjisx0213", "eucjp", "ujis", "u_jis", "euckr", "korean", "ksc5601",
  "ks_c_5601", "ks_c_5601_1987", "ksx1001", "ks_x_1001", "x_mac_korean", "gb18030_2000",
  "chinese", "csiso58gb231280", "euc_cn", "euccn", "eucgb2312_cn", "gb2312_1980", "gb2312_80",
  "iso_ir_58", "x_mac_simp_chinese", "936", "cp936", "ms936", "roman8", "r8", "csHPRoman8",
  "cp1051", "ibm1051", "hzgb", "hz_gb", "hz_gb_2312", "csiso2022jp", "iso2022jp", "iso_2022_jp",
  "iso2022jp_1", "iso_2022_jp_1", "iso2022jp_2", "iso_2022_jp_2", "iso_2022_jp_2004",
  "iso2022jp_2004", "iso2022jp_3", "iso_2022_jp_3", "iso2022jp_ext", "iso_2022_jp_ext",
  "csiso2022kr", "iso2022kr", "iso_2022_kr", "csisolatin6", "iso_8859_10", "iso_8859_10_1992",
  "iso_ir_157", "l6", "latin6", "thai", "iso_8859_11", "iso_8859_11_2001", "iso_8859_13", "l7",
  "latin7", "iso_8859_14", "iso_8859_14_1998", "iso_celtic", "iso_ir_199", "l8", "latin8",
  "iso_8859_15", "l9", "latin9", "iso_8859_16", "iso_8859_16_2001", "iso_ir_226", "l10",
  "latin10", "csisolatin2", "iso_8859_2", "iso_8859_2_1987", "iso_ir_101", "l2", "latin2",
  "csisolatin3", "iso_8859_3", "iso_8859_3_1988", "iso_ir_109", "l3", "latin3", "csisolatin4",
  "iso_8859_4", "iso_8859_4_1988", "iso_ir_110", "l4", "latin4", "csisolatincyrillic",
  "cyrillic", "iso_8859_5", "iso_8859_5_1988", "iso_ir_144", "arabic", "asmo_708",
  "csisolatinarabic", "ecma_114", "iso_8859_6", "iso_8859_6_1987", "iso_ir_127",
  "csisolatingreek", "ecma_118", "elot_928", "greek", "greek8", "iso_8859_7", "iso_8859_7_1987",
  "iso_ir_126", "csisolatinhebrew", "hebrew", "iso_8859_8", "iso_8859_8_1988", "iso_ir_138",
  "csisolatin5", "iso_8859_9", "iso_8859_9_1989", "iso_ir_148", "l5", "latin5", "cp1361",
  "ms1361", "cskoi8r", "kz_1048", "rk1048", "strk1048_2002", "maccyrillic", "macgreek",
  "maciceland", "maccentraleurope", "mac_centeuro", "maclatin2", "macintosh", "macroman",
  "macturkish", "csptcp154", "pt154", "cp154", "cyrillic_asian", "csshiftjis", "shiftjis",
  "sjis", "s_jis", "x_mac_japanese", "shiftjis2004", "sjis_2004", "s_jis_2004", "shiftjisx0213",
  "sjisx0213", "s_jisx0213", "tis620", "tis_620_0", "tis_620_2529_0", "tis_620_2529_1",
  "iso_ir_166", "u7", "utf7", "unicode_1_1_utf_7"]

def transformationNames : List String := [
  "base64_codec", "bz2_codec", "hex_codec", "quopri_codec", "rot_13", "uu_codec", "zlib_codec"]

def transformationAliases : List String := [
  "base64", "base_64", "bz2", "hex", "quopri", "quoted_printable", "quotedprintable", "rot13",
  "uu", "zip", "zlib"]

def ofAlias? (name : String) : Option Codec :=
  match decodedNames.find? fun entry => entry.2.2.contains name with
  | some entry => some entry.1
  | none =>
      if otherTextAliases.contains name then some .foreign
      else if transformationAliases.contains name then some .transformation
      else none

def ofName? (name : String) : Option Codec :=
  match decodedNames.find? fun entry => entry.2.1.contains name with
  | some entry => some entry.1
  | none =>
      if otherTextNames.contains name then some .foreign
      else if transformationNames.contains name then some .transformation
      else none

def pointsAsUnderscores (name : String) : String :=
  String.ofList (name.toList.map fun c => if c = '.' then '_' else c)

def lookup (name : String) : Option Codec :=
  let normalized := normalizeName name.toList
  ((ofAlias? normalized).or (ofAlias? (pointsAsUnderscores normalized))).or (ofName? normalized)

end LocaleLint.Encoding
