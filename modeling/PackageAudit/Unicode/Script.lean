import PackageAudit.Unicode.CodePoints

/-!
# Unicode.Script — writing systems

* `Script.tables` — of every script its names, the characters of the script itself, and those that
  are used with it;
* `Script.named?` — the characters of the script of a given name;
* `Script.usedWith?` — the characters used with it.
-/

namespace PackageAudit

namespace Script

/-! ## Tables -/

/-- Names in lower case, and the two sets in compact notation. -/
def tables : List (List String × String × String) := [
  (["adlm", "adlam"],
    "2olc 23 4 9 4 1",
    "17j 0 w 0 55a 0 2r5 0 2fge 23 4 9 4 1"),
  (["ahom"],
    "1j40 q 2 e 4 m",
    ""),
  (["hluw", "anatolianhieroglyphs"],
    "1s00 g6",
    ""),
  (["arab", "arabic"],
    "16o 4 1 5 1 d 1 2 1 v 1 9 b p 1 2z 1 x 28 1b 6o u 1 1 5 22 1 s 1bv4 36 g a2 2 27 2 1h 7 0 " ++
    "w f 34 4 1 3q 31f u 1v 2 1j 3 181s 3 1 q 1 1 1 0 2 0 1 9 1 3 1 0 1 0 6 0 4 0 1 0 1 0 1 2 1 " ++
    "1 1 0 2 0 1 0 1 0 1 0 1 0 1 1 1 0 2 3 1 6 1 3 1 3 1 0 1 9 1 g 5 2 1 4 1 g 1g 1",
    "16o 4 1 5y 1 x 28 1b 6o u 1 1 5 22 1 s 4lr 0 2r5 0 14i6 36 g cc 2 1h 7 0 w f 34 4 1 3q rn " ++
    "r 290 u 1v 2 1j 3 181s 3 1 q 1 1 1 0 2 0 1 9 1 3 1 0 1 0 6 0 4 0 1 0 1 0 1 2 1 1 1 0 2 0 1 " ++
    "0 1 0 1 0 1 0 1 1 1 0 2 3 1 6 1 3 1 3 1 0 1 9 1 g 5 2 1 4 1 g 1g 1"),
  (["armn", "armenian"],
    "10x 11 2 1d 2 2 1chv 4",
    "lk 0 fc 11 2 1d 2 2 1chv 4"),
  (["avst", "avestan"],
    "1gqo 1h 3 6",
    "53 0 8zc 1 17m6 1h 3 6"),
  (["bali", "balinese"],
    "5c0 24 1 1d",
    ""),
  (["bamu", "bamum"],
    "www 2f 124o fs",
    ""),
  (["bass", "bassavah"],
    "1zo0 t 2 5",
    ""),
  (["batk", "batak"],
    "5hc 1f 8 3",
    ""),
  (["beng", "bengali"],
    "1vk 3 1 7 2 1 2 l 1 6 1 0 3 3 2 8 2 1 2 3 8 0 4 1 1 4 2 o",
    "jg 0 1as 1 h 1 q 3 1 7 2 1 2 l 1 6 1 0 3 3 2 8 2 1 2 3 8 0 4 1 1 4 2 o 3pt 0 1 0 2 1 1 0 8 " ++
    "0 8 0 2 0 4 0 2 2 rnd 0"),
  (["bhks", "bhaiksuki"],
    "1k3k 8 1 18 1 d a s",
    ""),
  (["bopo", "bopomofo"],
    "kq 1 93t 16 34 v",
    "jr 0 1 2 d 0 g 1 8wl 2 4 9 1 c a 3 2 0 6 0 5f 0 9 16 34 v 14ed 1 7u 4"),
  (["brah", "brahmi"],
    "1hq8 25 4 z 9 0",
    ""),
  (["brai", "braille"],
    "7wg 73",
    ""),
  (["bugi", "buginese"],
    "54w r 2 1",
    "54w r 2 1 sdr 0"),
  (["buhd", "buhid"],
    "4lc j",
    "4l1 1 9 j"),
  (["cans", "canadianaboriginal"],
    "3y8 hr fk 1x 1ewq f",
    ""),
  (["cari", "carian"],
    "1f34 1c",
    "53 0 68y 0 2 0 2qb 0 15ym 1c"),
  (["aghb", "caucasianalbanian"],
    "1flc 1f b 0",
    "lg 0 18 0 18 0 1exd 1f b 0"),
  (["cakm", "chakma"],
    "1hxc 1g 1 h",
    "1ye 9 18w 9 1epi 1g 1 h"),
  (["cham"],
    "xkw 1i 9 d 2 9 2 3",
    ""),
  (["cher", "cherokee"],
    "3vk 2d 2 5 twy 27",
    "lc 2 1 0 6 1 m 1 b 1 38u 2d 2 5 twy 27"),
  (["chrs", "chorasmian"],
    "1ho0 r",
    ""),
  (["zyyy", "common"],
    "0 1s q 5 q 1a 1 e 1 4 n 0 v 0 ch 12 5 4 2 j 38 0 9 0 6 0 1 0 hp 0 6 0 e 0 3 0 w 0 4c 0 ec " ++
    "0 3l 1 yh 0 b9 3 82 0 167 2 1z 1 5n 1 1 0 y5 0 d 0 7 3 1 5 1 2 2 0 lh b 2 2e 1 a 3 a 1 e h " ++
    "w 1r 11 1 2 2 5 1 q 1 g 15 2 4 ih m a l pr 74 hf 2 v 1 2w e8 2l b6 k 1 0 1 o f 7 4 3 2j 1 " ++
    "3 0 2i 1 43 f w 11 9 0 1c 1r v 28 1b 0 2g 4n 534 1r hkw x 2u 2 4l 9 6s 0 4g 0 az 0 e 1 g5u " ++
    "1 5s 9 m y 1 i 1 3 43 0 1 v q 5 q a a 0 19 1 1s 6 1 6 a 4 76 2 4 18 3 8 28 c 1f 18 6c q " ++
    "10o4 3 318 6x 6 c3 4c 37 1o 6t a 12 2 1p 3 g 8 1 7 t 4 1o 5x j c j c 2e 9 o 3r 2c 1 1y 1 1 " ++
    "2 0 2 1 2 3 1 b 1 0 1 6 1 1s 1 3 2 7 1 6 1 r 1 3 1 4 1 0 3 6 1 9f 2 83 2 1d 41d 1v 24 1o " ++
    "jm 17 4 2r c e 2 e 1 e 1 10 a 4t 1k p 1 1 d 17 4 8 7 1 e 5 4a rb 4 g 3 c 3 3a 4 2m 6 b 4 0 " ++
    "f b 4 1j 8 9 6 13 8 t 2 b 4 1 1q 9f c d 2 c 3 9 5 1j 7 e 2 a 6 8 7 42 1 2t gvlz 0 u 2n",
    "0 1s q 5 q 1a 1 b 1 1 1 4 n 0 v 0 ch 2 1 9 1 0 3 0 1 8 1 0 1 5 5 4 2 j 3i 0 6 0 1 0 hp 0 " ++
    "5z 0 ec 0 124 0 b9 3 36v b 2 w 1 u 1 9 1 1 1 6 1 a 3 a 1 e h w 1r 11 1 2 2 5 1 q 1 g 15 2 " ++
    "4 ih m a l pr 74 hf 2 v 1 2w e8 m 1 n 2 9 1 3 1 0 1 p bm 0 3 0 d 0 d 0 l 0 ep n v 0 1d e c " ++
    "3 4h 9 5 2n v 0 534 1r hl4 p 2u 2 r4 0 e 1 gbo 9 m k 2 b 1 i 1 3 43 0 1 v q 5 q 5 3j 6 1 6 " ++
    "a 4 b6 c 1f 18 13wj 6x 6 c3 4c 37 1o 6t a 12 2 1p 3 g 8 1 7 t 4 1o 5x j c j c 2e r 6 3r 2c " ++
    "1 1y 1 1 2 0 2 1 2 3 1 b 1 0 1 6 1 1s 1 3 2 7 1 6 1 r 1 3 1 4 1 0 3 6 1 9f 2 83 2 1d 41d " ++
    "1v 24 1o jm 17 4 2r c e 2 e 1 e 1 10 a 4t 1k p 1 1 d 17 4 8 n 5 4a rb 4 g 3 c 3 3a 4 2m 6 " ++
    "b 4 0 f b 4 1j 8 9 6 13 8 t 2 b 4 1 1q 9f c d 2 c 3 9 5 1j 7 e 2 a 6 8 7 42 1 2t gvlz 0 u " ++
    "2n"),
  (["copt", "coptic", "qaac"],
    "rm d 80g 37 5 6",
    "53 0 g8 0 3 1 1 0 30 1 30 d 80g 37 5 6 7r 0 1614 r"),
  (["xsux", "cuneiform"],
    "1kw0 pl 2u 32 1 4 b 5f",
    ""),
  (["cprt", "cypriot"],
    "1g5c 5 2 0 1 17 1 1 3 0 2 0",
    "1erk 2 4 18 3 8 1c0 5 2 0 1 17 1 1 3 0 2 0"),
  (["cpmn", "cyprominoan"],
    "1nyo 2q",
    "1erk 1 972 2q"),
  (["cyrl", "cyrillic"],
    "sg 3o 2 4o 4ls a 4g 0 24 0 38n v nr4 2n ham 1 18n4 1p x 0",
    "jg 0 1v 2 1 0 1 0 1 0 2 0 5 0 6m 8f 4ls a 4g 0 24 0 3j 0 353 v 1v 0 np8 2n ham 1 18n4 1p x " ++
    "0"),
  (["dsrt", "deseret"],
    "1fcw 27",
    ""),
  (["deva", "devanagari"],
    "1s0 28 4 e 2 p vhc v mio 9",
    "jg 0 18j 2a 2 16 3tc 12 1 1 s6 0 qpr 9 4m v mio 9"),
  (["diak", "divesakuru"],
    "1ji8 6 2 0 2 7 1 1 1 t 1 1 2 b 9 9",
    ""),
  (["dogr", "dogra"],
    "1jb4 1n",
    "1us b vcw 9 m2u 1n"),
  (["dupl", "duployan"],
    "2fpc 2y 5 c 3 8 7 9 2 3",
    "53 0 gf 1 1 0 o 1 8if 0 26kj 2y 5 c 3 8 7 9 2 7"),
  (["egyp", "egyptianhieroglyphs"],
    "1o1s ut a 32y",
    ""),
  (["elba", "elbasan"],
    "1fk0 13",
    "53 0 gd 0 1eyi 13"),
  (["elym", "elymaic"],
    "1hpc m",
    ""),
  (["ethi", "ethiopic"],
    "3k0 20 1 3 2 6 1 0 1 3 2 14 1 3 2 w 1 3 2 6 1 0 1 3 2 e 1 1k 1 3 2 1u 2 v 3 p 546 m 9 6 1 " ++
    "6 1 6 1 6 1 6 1 6 1 6 1 6 opu 5 2 5 2 5 9 6 1 6 1qk1 6 1 3 1 1 1 e",
    "lq 0 2y9 20 1 3 2 6 1 0 1 3 2 14 1 3 2 w 1 3 2 6 1 0 1 3 2 e 1 1k 1 3 2 1u 2 v 3 p 546 m 9 " ++
    "6 1 6 1 6 1 6 1 6 1 6 1 6 1 6 opu 5 2 5 2 5 9 6 1 6 1qk1 6 1 3 1 1 1 e"),
  (["gara", "garay"],
    "1h6o 11 3 s 8 1",
    "170 0 e 0 3 0 1fz4 11 3 s 8 1"),
  (["geor", "georgian"],
    "3a8 11 1 0 5 0 2 16 1 3 2a8 16 2 2 37k 11 1 0 5 0",
    "53 0 y9 0 26u 11 1 0 5 0 2 1b 2a8 16 2 2 pm 0 2hx 11 1 0 5 0 77 0"),
  (["glag", "glagolitic"],
    "8ow 2n 2e1s 6 1 g 2 6 1 1 1 4",
    "53 0 gb 0 1 0 am 0 2 0 75 0 29d 0 31a 0 2at 2n df 0 nqj 0 1pxs 6 1 g 2 6 1 1 1 4"),
  (["goth", "gothic"],
    "1f74 q",
    "53 0 gc 1 2 0 14 0 1eke q"),
  (["gran", "grantha"],
    "1ibk 3 1 7 2 1 2 l 1 6 1 1 1 4 2 8 2 1 2 2 2 0 6 0 5 6 2 6 3 4",
    "1u9 1 h 1 hs d 3bw 0 1 1 u 2 3 1 s6 0 1btb 3 1 7 2 1 2 l 1 6 1 1 1 4 1 9 2 1 2 2 2 0 6 0 5 " ++
    "6 2 6 3 4 2fv 1 1 0"),
  (["grek", "greek"],
    "og 3 1 2 2 3 1 0 4 0 1 0 1 2 1 0 1 j 1 1q e f 4yu 4 1e 4 4 4 2c 0 8w l 2 5 2 11 2 5 2 7 1 " ++
    "0 1 0 1 0 1 u 2 1g 1 e 1 d 2 5 1 i 2 2 1 8 87 0 rb2 0 gyi 26 h 0 155r 1x",
    "53 0 g8 1 2 0 1 0 1 0 a 0 1a 0 2 0 16 7 2 3 1 0 4 0 1 0 1 2 1 0 1 j 1 1q e f 4yu 4 1e 4 4 " ++
    "4 2c 2 8u l 2 5 2 11 2 5 2 7 1 0 1 0 1 0 1 u 2 1g 1 e 1 d 2 5 1 i 2 2 1 8 2m 0 5k 0 rb2 0 " ++
    "gyi 26 h 0 155r 1x"),
  (["gujr", "gujarati"],
    "22p 2 1 8 1 2 1 l 1 6 1 1 1 4 2 9 1 2 1 2 2 0 f 3 2 b 7 6",
    "1u9 1 h 1 7v 2 1 8 1 2 1 l 1 6 1 1 1 4 2 9 1 2 1 2 2 0 f 3 2 b 7 6 v1s 9"),
  (["gong", "gunjalagondi"],
    "1kdc 5 1 1 1 10 1 1 1 5 7 9",
    "53 0 1po 1 1iii 5 1 1 1 10 1 1 1 5 7 9"),
  (["guru", "gurmukhi"],
    "1z5 2 1 5 4 1 2 l 1 6 1 1 1 1 1 1 2 0 1 4 4 1 2 2 3 0 7 3 1 0 7 g",
    "1u9 1 h 1 4b 2 1 5 4 1 2 l 1 6 1 1 1 1 1 1 2 0 1 4 4 1 2 2 3 0 7 3 1 0 7 g v5l 9"),
  (["gukh", "gurungkhema"],
    "1xq8 1l",
    "1ut 0 1vve 1l"),
  (["hani", "han"],
    "96o p 1 2g c 5x 1b 0 1 0 p 8 e 3 qs 533 1s g73 hkw a5 2 2x n48 1 c 1 sge wyn w 37d 6 65 2 " ++
    "4g1 e 5rk f h9 1wi f1 15u 3t6 5 38f",
    "53 0 91k p 1 2g c 5x q f 1 2 1 c 1 c 1 c 2 0 6 8 57 0 44 f w 11 9 0 1c 13 1k 1c f b 1f 0 " ++
    "2g o a 4 2o u 1 533 1s g73 1ds 7 g6w a5 2 2x ob 1 7u 4 m7w 1 c 1 jn2 h 63i 1 2pa wyn w 37d " ++
    "6 65 2 4g1 e 5rk f h9 1wi f1 15u 3t6 5 38f"),
  (["hang", "hangul"],
    "3cw 73 5ym 1 75 2l 35 u 1t u nhd s hv 8mb c m 4 1c 7tw u 3 5 2 5 2 5 2 2",
    "3cw 73 5xd 2 4 9 1 c e 2 6 0 5f 0 1h 2l 35 u 1t u nhd s hv 8mb c m 4 1c 7k9 1 7u 4 1m u 3 " ++
    "5 2 5 2 5 2 2"),
  (["rohg", "hanifirohingya"],
    "1h4w 13 8 9",
    "170 0 e 0 3 0 w 0 43 0 1fsb 13 8 9"),
  (["hano", "hanunoo"],
    "4kg k",
    "4kg m"),
  (["hatr", "hatran"],
    "1gbk i 1 1 5 4",
    ""),
  (["hebr", "hebrew"],
    "13l 1i 8 q 4 5 1cfc p 1 4 1 0 1 1 1 1 1 9",
    "lj 1 i0 1i 8 q 4 5 1cfc p 1 4 1 0 1 1 1 1 1 9"),
  (["hira", "hiragana"],
    "9j5 2d 6 2 23q9 7y i 0 t 2 crx 0",
    "9hd 2 4 9 1 c g 5 1 0 4 1 3 2d 2 7 2i 1 14js 1 7u 4 a 0 19 1 yu9 7y i 0 t 2 crx 0"),
  (["armi", "imperialaramaic"],
    "1g74 l 1 8",
    ""),
  (["zinh", "inherited", "qaai"],
    "lc 33 7p 1 ck a q 0 kg 3 3ff u e9 2 1 c 1 6 4 0 6 0 3 1 5i 1r ek 1 5e w 309 3 2z 1 14kl f " ++
    "g d r3 0 6a 0 38a 0 1138 19 2 m f4 2 h 7 2 6 u 3 h45u 6n",
    "lr 0 2 0 1 e 3 6 2 0 2 f 1 1 1 h 1 4 1 3 168 1 3ff u kz 1h 1 0 1 4 ek 1 5e v 17o0 f g d r3 " ++
    "0 14hu 19 2 m f4 2 h 7 2 6 u 3 h45u 6n"),
  (["phli", "inscriptionalpahlavi"],
    "1gtc i 5 7",
    ""),
  (["prti", "inscriptionalparthian"],
    "1gsg l 2 7",
    ""),
  (["java", "javanese"],
    "xhc 25 2 9 4 1",
    "xhc 25 1 a 4 1"),
  (["kthi", "kaithi"],
    "1hts 1u a 0",
    "1uu 9 79d 0 o3i 9 kli 1u a 0"),
  (["knda", "kannada"],
    "2gw c 1 2 1 m 1 9 1 4 2 8 1 2 1 3 7 1 6 1 1 3 2 9 1 2",
    "1u9 1 h 1 m2 c 1 2 1 m 1 9 1 4 2 8 1 2 1 3 7 1 6 1 1 3 2 9 1 2 34s 0 1 1 6 0 n 0 1 0 ri3 5"),
  (["kana", "katakana"],
    "9lt 2h 2 2 6o f 5s 1a 1 2f 14b2 9 1 18 ytu 3 1 6 1 1 1 0 7z 2 1e 0 e 3",
    "lh 0 t 0 8v1 2 4 9 1 c g 5 1 0 4 1 2j 3 3 2n 6o f 5s 1a 1 2f 1431 1 7u 1q yts 3 1 6 1 1 1 " ++
    "0 7z 2 1e 0 e 3"),
  (["kawi"],
    "1kow g 1 14 3 s",
    ""),
  (["kali", "kayahli"],
    "xds 19 1 0",
    "xds 1b"),
  (["khar", "kharoshthi"],
    "1gjk 3 1 1 5 7 1 2 1 s 2 2 4 9 7 8",
    ""),
  (["kits", "khitansmallscript"],
    "20o4 0 5cr d1 15 0",
    ""),
  (["khmr", "khmer"],
    "4n4 2l 2 9 6 9 di v",
    ""),
  (["khoj", "khojki"],
    "1i4g h 1 1a",
    "25i 9 v28 9 kw6 h 1 1a"),
  (["sind", "khudawadi"],
    "1i9c 1m 5 9",
    "1us 1 vd6 9 l12 1m 5 9"),
  (["krai", "kiratrai"],
    "205c 1l",
    ""),
  (["laoo", "lao"],
    "2v5 1 1 0 1 4 1 n 1 0 1 m 2 4 1 0 1 6 1 9 2 3",
    ""),
  (["latn", "latin"],
    "1t p 6 p 1b 0 f 0 5 m 1 u 1 cg 13 4 55n 11 6 1c 5 3 5 c 1 1x 1t 73 a9 0 d 0 g c 3x 1 6 0 r " ++
    "0 h 14 253 v o82 2t 3 1u 2 1 1 0 1 7 l d mo 16 1 8 1 3 fpy 6 t6 p 6 p 1lx 5 1 15 1 8 16it " ++
    "u 6 5",
    "1t p 6 p 1b 0 c 0 2 0 5 m 1 u 1 cg 3 0 a 0 1 2 1 0 9 0 1 0 6 4 r e 1 1 1 0 f 2 7 1 1 1 12 " ++
    "0 5 0 4 c 7p 1 y2 1 1ig 0 2dg 11 6 1c 5 3 5 c 1 1x 1l 0 7 73 8f 0 1t 0 d 0 g c 2b 0 1l 1 6 " ++
    "0 r 0 h 14 253 v bb 0 nvs 7 q 2t 3 1u 2 1 1 0 1 7 l d 8e 0 e9 16 1 8 1 3 fpy 6 t6 p 6 p " ++
    "1lx 5 1 15 1 8 16it u 6 5"),
  (["lepc", "lepcha"],
    "5j4 1j 3 e 3 2",
    ""),
  (["limb", "limbu"],
    "4xs u 1 b 4 b 4 0 3 b",
    "1ut 0 32y u 1 b 4 b 4 0 3 b"),
  (["lina", "lineara"],
    "1fr4 8m 9 l a 7",
    "1err 18 y4 8m 9 l a 7"),
  (["linb", "linearb"],
    "1ekg b 1 p 1 i 1 1 1 e 2 d y 3e",
    "1ekg b 1 p 1 i 1 1 1 e 2 d y 3e 5 2 4 18 3 8"),
  (["lisu"],
    "wk0 1b o8g 0",
    "jg 0 g 0 8xo 1 n2c 1b o8g 0"),
  (["lyci", "lycian"],
    "1f28 s",
    "6e2 0 18o5 s"),
  (["lydi", "lydian"],
    "1gdc p 5 0",
    "53 0 8zd 0 178u p 5 0"),
  (["mahj", "mahajani"],
    "1hzk 12",
    "53 0 1po b vcw 9 kra 12"),
  (["maka", "makasar"],
    "1ko0 o",
    ""),
  (["mlym", "malayalam"],
    "2kg c 1 2 1 1e 1 2 1 5 4 f 2 p",
    "1u9 1 h 1 pm c 1 2 1 1e 1 2 1 5 4 f 2 p 316 0 n 0 ri5 2"),
  (["mand", "mandaic"],
    "1mo r 2 0",
    "18g 0 e7 r 2 0"),
  (["mani", "manichaean"],
    "1gow 12 4 b",
    "18g 0 1fgf 12 4 b"),
  (["marc", "marchen"],
    "1k6o v 2 l 1 d",
    ""),
  (["gonm", "masaramgondi"],
    "1kao 6 1 1 1 17 3 0 1 1 1 8 8 9",
    "1us 1 1ifu 6 1 1 1 17 3 0 1 1 1 8 8 9"),
  (["medf", "medefaidrin"],
    "20cg 2i",
    ""),
  (["mtei", "meeteimayek"],
    "xr4 m 5l 19 2 9",
    ""),
  (["mend", "mendekikakui"],
    "2oe8 5g 2 f",
    ""),
  (["merc", "meroiticcursive"],
    "1ggw n 4 j 2 19",
    ""),
  (["mero", "meroitichieroglyphs"],
    "1gg0 v",
    "6e5 0 1a1u v"),
  (["plrd", "miao"],
    "20hs 22 4 1k 7 g",
    ""),
  (["modi"],
    "1iww 1w b 9",
    "x80 9 lom 1w b 9"),
  (["mong", "mongolian"],
    "4qo 1 2 0 1 j 6 2g 7 16 1e45 c",
    "4qo p 6 2g 7 16 1hg 0 34h 1 5 3 19hw c"),
  (["mroo", "mro"],
    "1zk0 u 1 9 4 1",
    ""),
  (["mult", "multani"],
    "1i80 6 1 0 1 3 1 e 1 a",
    "21y 9 1g5s 6 1 0 1 3 1 e 1 a"),
  (["mymr", "myanmar"],
    "35s 4f u9s u 2p v le8 j",
    "35s 4f u4u 0 4x u 2p v le8 j"),
  (["nbat", "nabataean"],
    "1g8w u 8 8",
    ""),
  (["nagm", "nagmundari"],
    "2nrk 15",
    ""),
  (["nand", "nandinagari"],
    "1jmo 7 2 19 2 a",
    "1u9 0 i 1 ow 9 35l 0 8 0 7 0 rhx 5 mei 7 2 19 2 a"),
  (["talu", "newtailue"],
    "51c 17 4 p 6 a 3 1",
    ""),
  (["newa"],
    "1iio 2j 1 4",
    "1u9 1 3uq 0 1 1 9 0 6 0 1 0 1 0 1csy 2j 1 4"),
  (["nkoo", "nko"],
    "1j4 1m 2 2",
    "170 0 e 0 3 0 bk 1m 2 2 1cfy 1"),
  (["nshu", "nushu"],
    "20o1 0 cy6 az",
    ""),
  (["hmnp", "nyiakengpuachuehmong"],
    "2n0g 18 3 d 2 9 4 1",
    ""),
  (["ogam", "ogham"],
    "4g0 s",
    ""),
  (["olck", "olchiki"],
    "5lc 1b",
    ""),
  (["onao", "olonal"],
    "2nyo 16 4 0",
    "1us 1 2m3u 16 4 0"),
  (["hung", "oldhungarian"],
    "1h1c 1e d 1e 7 5",
    "6e2 0 2 0 2qb 0 f 0 17we 1e d 1e 7 5"),
  (["ital", "olditalic"],
    "1f5s z 9 2",
    ""),
  (["narb", "oldnortharabian"],
    "1gn4 v",
    ""),
  (["perm", "oldpermic"],
    "1f80 16",
    "53 0 g8 0 5 2 a 0 a7 0 1ebw 16"),
  (["xpeo", "oldpersian"],
    "1fa8 z 4 d",
    ""),
  (["sogo", "oldsogdian"],
    "1hj4 13",
    ""),
  (["sarb", "oldsoutharabian"],
    "1gm8 v",
    ""),
  (["orkh", "oldturkic"],
    "1gxs 20",
    "6e2 0 2qd 0 17tb 20"),
  (["ougr", "olduyghur"],
    "1hm8 p",
    "18g 0 1fht 0 vx p"),
  (["orya", "oriya"],
    "269 2 1 7 2 1 2 l 1 6 1 1 1 4 2 8 2 1 2 2 7 2 4 1 1 4 2 h",
    "1u9 1 h 1 bf 2 1 7 2 1 2 l 1 6 1 1 1 4 2 8 2 1 2 2 7 2 4 1 1 4 2 h 3fm 0 n 0"),
  (["osge", "osage"],
    "1fhs z 4 z",
    "ld 0 2 0 6 0 24 0 1etz z 4 z"),
  (["osma", "osmanya"],
    "1fgg t 2 9",
    ""),
  (["hmng", "pahawhhmong"],
    "1zpc 1x a 9 1 6 1 k 5 i",
    ""),
  (["palm", "palmyrene"],
    "1g80 v",
    ""),
  (["pauc", "paucinhau"],
    "1juo 1k",
    ""),
  (["phag", "phagspa"],
    "x8g 1j",
    "4qq 1 1 0 1m1 0 34i 0 nr1 1j"),
  (["phnx", "phoenician"],
    "1gcg r 3 0",
    ""),
  (["phlp", "psalterpahlavi"],
    "1gu8 h 7 3 c 6",
    "18g 0 1flr h 7 3 c 6"),
  (["rjng", "rejang"],
    "xf4 z b 0",
    ""),
  (["runr", "runic"],
    "4gw 22 3 a",
    "4gw 2g"),
  (["samr", "samaritan"],
    "1kw 19 2 e",
    "1kw 19 2 e 7hu 0"),
  (["saur", "saurashtra"],
    "xa8 1x 8 b",
    ""),
  (["shrd", "sharada"],
    "1i0w 2n",
    "1u9 0 3ut 0 1 0 2 1 2 0 9 0 2 0 ria 5 2 0 ksn 2n"),
  (["shaw", "shavian"],
    "1ff4 1b",
    "53 0 1fa0 1b"),
  (["sidd", "siddham"],
    "1itc 1h 2 11",
    ""),
  (["sgnw", "signwriting"],
    "2l8g i3 f 4 1 e",
    ""),
  (["sinh", "sinhala"],
    "2o1 2 1 h 3 n 1 8 1 0 2 6 3 0 4 5 1 0 1 7 6 9 2 2 1fcc j",
    "1us 1 t7 2 1 h 3 n 1 8 1 0 2 6 3 0 4 5 1 0 1 7 6 9 2 2 2yl 0 1cdq j"),
  (["sogd", "sogdian"],
    "1hkg 15",
    "18g 0 1gbz 15"),
  (["sora", "sorasompeng"],
    "1hw0 o 7 9",
    ""),
  (["soyo", "soyombo"],
    "1jrk 2a",
    ""),
  (["sund", "sundanese"],
    "5fk 1r 74 7",
    ""),
  (["sunu", "sunuwar"],
    "1k1s x e 9",
    "lc 1 1 0 9 0 2 0 s 0 3 0 1jf2 x e 9"),
  (["sylo", "sylotinagri"],
    "x6o 18",
    "1us 1 3k 9 v80 18"),
  (["syrc", "syriac"],
    "1ds d 1 1n 2 2 7k a",
    "lf 1 2 1 1 0 o 2 7 1 1 1 ka 0 e 1 2 0 w 0 a a q 0 3z d 1 1n 2 2 7k a 499 0 1 0"),
  (["tglg", "tagalog"],
    "4jk l 9 0",
    "4jk l 9 0 l 1"),
  (["tagb", "tagbanwa"],
    "4m8 c 1 2 1 1",
    "4l1 1 15 c 1 2 1 1"),
  (["tale", "taile"],
    "500 t 2 4",
    "lc 1 5 1 3 0 2lv 9 1s6 t 2 4"),
  (["lana", "taitham"],
    "55s 1q 1 s 2 a 6 9 6 d",
    ""),
  (["tavt", "taiviet"],
    "xog 1u o 4",
    ""),
  (["takr", "takri"],
    "1j0g 1l 6 9",
    "1us 1 vd6 9 ls6 1l 6 9"),
  (["taml", "tamil"],
    "29u 1 1 5 3 2 1 3 3 1 1 0 1 1 3 1 3 2 3 b 4 4 3 2 1 3 2 0 6 0 e k 1ih1 1d d 0",
    "1u9 1 h 1 f0 1 1 5 3 2 1 3 3 1 1 0 1 1 3 1 3 2 3 b 4 4 3 2 1 3 2 0 6 0 e k 3bz 0 ro8 0 ky5 " ++
    "0 1 0 1j 1 2gz 1d d 0"),
  (["tnsa", "tangsa"],
    "1zlc 26 1 9",
    ""),
  (["tang", "tangut"],
    "20o0 0 v 4qf 8 lb e8 8",
    "9gw f dr 0 1qsw 0 v 4qf 8 lb e8 8"),
  (["telu", "telugu"],
    "2dc c 1 2 1 m 1 f 2 8 1 2 1 3 7 1 1 2 2 0 2 3 2 9 7 8",
    "1u9 1 h 1 ii c 1 2 1 m 1 f 2 8 1 2 1 3 7 1 1 2 2 0 2 3 2 9 7 8 385 1 1 0 1 0 n 0"),
  (["thaa", "thaana"],
    "1hc 1d",
    "170 0 e 1 2 0 1s 9 7q 1d 1cn4 0 a 0"),
  (["thai"],
    "2rl 1l 5 r",
    "jg 0 q 0 17 0 19 0 24v 1l 5 r"),
  (["tibt", "tibetan"],
    "2yo 1z 1 z 4 12 1 z 1 e 1 6 4 1",
    "2yo 1z 1 z 4 12 1 z 1 e 1 6 4 1 6ct 3"),
  (["tfng", "tifinagh"],
    "8xc 1j 7 1 e 0",
    "le 0 1 0 1 3 p 0 8b0 1j 7 1 e 0"),
  (["tirh", "tirhuta"],
    "1im8 1z 8 9",
    "1u9 1 h 1 3u7 0 c 0 f 0 ri5 9 ldy 1z 8 9"),
  (["todr", "todhri"],
    "1fpc 1f",
    "ld 0 2 0 2 0 9 0 1 0 22 0 1f1d 1f"),
  (["toto"],
    "2nbk u",
    "jg 0 2ms3 u"),
  (["tutg", "tulutigalari"],
    "1if4 9 1 0 2 0 1 11 1 9 1 0 2 0 1 3 1 9 1 1 8 1",
    "2jq 9 35u 0 1 0 ri3 5 57 0 l1q 9 1 0 2 0 1 11 1 9 1 0 2 0 1 3 1 9 1 1 8 1"),
  (["ugar", "ugaritic"],
    "1f9c t 1 0",
    ""),
  (["vaii", "vai"],
    "wlc 8b",
    ""),
  (["vith", "vithkuqi"],
    "1fn4 a 1 e 1 6 1 1 1 a 1 e 1 6 1 1",
    ""),
  (["wcho", "wancho"],
    "2ncw 1l 5 0",
    ""),
  (["wara", "warangciti"],
    "1jfk 2a c 0",
    ""),
  (["yezi", "yezidi"],
    "1hfk 15 1 2 2 1",
    "170 0 e 0 3 0 1s 9 1g5y 15 1 2 2 1"),
  (["yiii", "yi"],
    "vls wc 3 1i",
    "9hd 1 5 9 2 7 67 0 lxg wc 3 1i hwa 4"),
  (["zanb", "zanabazarsquare"],
    "1jpc 1z",
    "")]

/-! ## Names -/

/-- The characters of the script with a name in lower case, without separators. -/
def named? (name : String) : Option CodePoints :=
  (tables.find? fun t => t.1.contains name).map fun (_, own, _) => .read own

/-- The characters used with the script of a name; an empty table means the script's own. -/
def usedWith? (name : String) : Option CodePoints :=
  (tables.find? fun t => t.1.contains name).map fun (_, own, used) =>
    .read (if used.isEmpty then own else used)

end Script

end PackageAudit
