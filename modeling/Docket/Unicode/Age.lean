import Docket.Unicode.CharSet

/-!
The version of Unicode in which each code point was first assigned, up to version 16.0.
-/

namespace Docket.Unicode

/-- A letter for the version that assigned each code point; an underscore for none. -/
def ages : Labelling := .ofTable (String.join [
    "502A4D30A8D1F1G18D3G11H14I89A5D2G47A1D10A5D17G70A9D1F8G5H3G2A1D13F4J2A2J2_1A3I1A1P4_7A1_1A1_20",
    "A1_44A1J7A1D2F1A1D1A1D1A1D1A1D18A2E1F5G4H1D12A1D66A1D12A1D41A1J2D2F4D53A2F2A2F2A2F1I28A2D8A2H2",
    "A6I16F4I16J2K2L8P1_38A2_7A1T39A1T1A1D2_2P1M1_17B1H13B10A1I9A1B3H8_27A4_1T5A11_4G1M1P5J1H1A9G5J",
    "1A1O1X1H1A1L26A5J19A3D3G6H1L14A2F72A2D5A1D15A1D30A2G10A5D1G14D1_30D3G27D2_3G30H18J49D1F14_59I2",
    "_3T46K2_15K1_28L2_1L1_11S5_31X1_2X5_1a8X1M1P11M6P2Q1X8R10W11X1T15R1Q27M1P1K3A1G53A2L18A1K1L5A1",
    "K2L25A2J5L1P2K2I1H2I1P3A1_8A2_2A2_22A1_7A1_1A3_4A2_1A1G7A2_2A2_3A1H8_1A4_2A1_5A2_21A1K2S1T2_1G",
    "1A1G1_6A4_2A2_22A1_7A1_2A1_2A1_2A2_1A1_5A4_2A2_3A3_1J7_4A1_1A7_15A1J1T10_3A1_7A1G1A1_3A1_22A1_",
    "7A1_2A1_5A2_10A1_3A1_3A2_1A15_1A3G2_10A1M1G7_1Q6S1_3A1_8A2_2A2_22A1_7A1_2A1_1G4A2_8A1J2_2A2_3A",
    "7_1W2A4_2A1_3A2J2_11A1G6L10_2A1_6A3_3A1_4A3_2A1_1A1_2A3_2A3_3A3_8A1H3A4_5A3_3A1_4A2_1J6_1A14_1",
    "H12A8G5_1P3A1T8A1_3A1_23A1_10A1P5A2_1X1J7A1_3A1_4A7_2A1_2J1Q2_1X2_2A2J2_10A7_1U8J1R1P2A1T8A1_3",
    "A1_23A1_10A1_5A2_2G7A1_3A1_4A7_2A6_1X1A1_2A2I2_10A1_2I1Y12_1S1P2A1W8A1_3A1_23A1L16A1L2S1J6A1J1",
    "_3A1_4A1L1R4_3R1A7R1Q2A2J2_10A6J3R7J1_1W2D1_18D3_24D1_9D1_1D2_7D3_1D4_6D1_1D1_8D6_10P2_3D12_58",
    "A4_29A37_2A1_1A1_1U2A1U1A1_1U1A6U4A1U7A1U3A1_1A1_1A2U2A1U13A1U3A2_5A1_1A1_6A1Y1_10A2_2A2M32_72",
    "B1_33B1D2J4_27B4L6B1D1B1_21B3D7B1D1B3D1_15D1_1J1D2H3J4K2L37_34D1J5D1J2D1J7D3J4D6J26D64J4K2J38A",
    "1_1M5_1M2_39A2F2H1A1H3M90A5K68A5K82A6K7D1H63D1H1D1_4D2_7D1_1D1_4D2_39D1H1D1_4D2_31D1H1D1_4D2_7",
    "D1_1D1_4D2_7D1H7D1_23D1H31D1H1D1_4D2_7D1H39D1H19D2_2L2H28D3_26H6_85D1Q2_6Q2_1K630D9K29D3_81D8P",
    "7_13F1X7F1X9_1X23F9_20F12_13F1_3F1_2F12_93D1G2_10D6_10G6_15D1X10D6_88D1T7_42D1J5_70K10_29G2P1_",
    "12G4_12G4_1G3_42G2_5G11_42H2K4_26H6_10H1K3_2H32G28H2_2H63K1_29K2_11K6_10K6_14K2_15P2W14X49_76I",
    "1X1_2a45I2X1a43J3M12J6M52L8_4L56J3_15J3_51J9R2a5_43T2_3T8M8_35K4M1S2P1U5_108G88H7I28J15P4S1X1R",
    "1L1K2I155A1B4J90A6J22A2_6A2_38A2_6A2_8A1_1A1_1A1_1A1_31A2_53A1_15A1_14A2_6A1_19A2_3A1_9A1_47A1",
    "D23A1F6D5F2G2H1F7H5F1J1_4O7A1F2_27A1_5H8L3_11A1B1C3D2F4H3K1L1N3P1Q1S1X15_18A2D7F1H4I1J15_57A2D",
    "1G1H15F1H2I1J3K48A1D1I4J1K2Q4_91A9D12F242A14F1A1D121A1D1F30D52F2G11H12I1K11L7P4R1S37A2D3a22_11",
    "A21_139A20F1G150A10F80A8D8F20A2G2F1H1D86A2D12F2H10F8G11H1J2K2G16H1I10J3K4J10K1L19K1L1K4L24K1P4",
    "A1L4A2L28A1L35A1L1A1L4A3L1A1K7A2L7A14F31A3L24A1L14A1L7H4I1M1J1M2L28F4J16F256D512F14G6H7I5J4I41",
    "J3P5J5K26P2_32P1_1W34P3T12P1U8P1S25T4Q15T1U47H1X47H1X13I3J1K3J4I6J2K107H7K2M5_45H1_1M5_1M2_54H",
    "2M7_1H1L14_1L23H9_7H1_7H1_7H1_7H1_7H1_7H1_7H1_7H1_32J24H4J2H19J1K10M7P2R5S5T1U3W11X34_26D1_89D",
    "12_214D26_12D4Z56A3D3F1D1A1_84A2F2_6A2F94A1F5_40A1J1S1T1_94A1_16A24D3L5W16H20J2a9_1Z16F29A2G1_",
    "36A12K1G15F28A2G1H50A15F12A4G47A1V119A4G99A2G31A1G6582D10W64G20902A22H8J8K1M9Q21S5T13W3X1165D3",
    "_18D2F16D1F12D1F3D1F1D9_48K300J20_32J2L18J8M28J6P1Q1M88K8_23H4I5J2I107J2L1Q2L2M12P10L1M3P1R1T2",
    "P6Q2T6U2X5U4W3a2_2X1_1X1_5X3a21_3X2W1P2M1L5J44H1W3_10K6_56I8_69J1R8_12J6_28K2Q2T84J11_1J29K3_7",
    "8K1_11K4_2K31P1_55J9_14J2_10J2_4J28K4P67K24_5K23M10_6L2_6L2_6L9_7L1_7L1_48P4Q2P2U4W4_80Q46K2_1",
    "0K6_11172B12_23K4_49K4_2048B6702A2M59F3K2_106H38_7A12_5A5_1D25A1_5A1_1A1_2A1_2A1_108A16L1X16_3",
    "65A16X64A2_54A7_1X32E12A1F1G2X16F10H6_4A3J7P2Q21A2F2G10A1_19A1_4A4_3A1F1A1_135A2_1A1_94A2F94A3",
    "_6A2_6A2_6A2_3A3_7A1_7A10_3D1C3A12G1_26G1_19G1_2G1_15G2_14G34_123G5_3G4_45G3_9G75H2P2R1_12J1W3",
    "_1P47_46J130_29J3_49J15_28P4_31E1P4E9_3S27E5_43P5_30G1_1G36H4_14H42_38E2G38E80G2_10G6_36R4_36R",
    "4_40P8_52P11_1P11X1_15X1_7X1_2X1_11X1_15X1_7X1_2X3_52a12_311P9_22P10_8P24_6X1_42X1_9X69_6G2_1G",
    "1_44G1_2G3_1G2_1G22K1_9K63P8_9P48_19Q1_2Q5_5Q26I2K3_1I26J5_1J64_56M4_2Q2M16Q2_46Q4H1_2H5_8H1_3",
    "H1_27H2T2_3H4_9H1T7_9H7_32K32P32_39P4_12P9_54K3_29K2_27K5_8K18P7_4P12_7P80_73K55_51Q13_51Q7_6Q",
    "40T8_10T6_38a3_29a8_2a208_31K1_42W1_3W2_2W16_3a55_1a3Y40T8_42T22_26X38_28W20_23U9_78L4_30L6X9_",
    "1P66K1X10_1T2_25M7_10M6_53M1_14M3T1W8_39P9_73M4Q1P2W10M1P5Q1_20P11_18P1_43P1R3Y62_7Q1_1Q1_4Q1_",
    "15Q1_11Q6_59P5_10P6_1Q3P1_8P2_2P2_22P1_7P1_2P1_5P1_1T9P2_2P2_3P2_1Q6_1P5_7P2_7P3_5P11_10a1_1a2",
    "_1a1_38a1_10a1_1a2_1a1_4a1_10a1_2a8_2a29_90R1W1R1_1R1T1U2W30_72P8_10P166_54P2_18P20Q34_69P11_1",
    "0P6_13R19_56M1U1X6_10M6_20a28_26Q1T2_15Q4_16Q7X185_60T100_83P12_1P7W2_1W2_8W1_2W1_30W1_2W2_12W",
    "9_10W70_8U2_46U2_11U27_72S8_52S2U23S1T5S13_16X57P7_10Y182_34a14_10a6_9R1_45R1_14R10_29R3_32R2_",
    "22R1_14R73_7S1_2S1_44S3_1S1_2S1_9S8_10S6_6T1_2T1_37T1_2T1_6T7_10T310_25T7_17Y1_41Y3_28Y1a85_1W",
    "15_50U13_1U879I42P1Q102_99I12P1_4I1P11_196Q2636_99X13_1071K1Y9U29Y10_3995a5_583Q6841_58a1734_5",
    "69L7_31P1_10P4_2P79X1_10X6_30P2_6P10_70P10_10P1_7P1_21P5_19P432_58a198_91T101_69M6U4_1U47M9U7_",
    "17M64_1R1S2U1W11_2W14_6125R5T6U8_755R483W41_1a9W8935_4X1_7X1_2X1_2L285S4X15_1Y29_3U2_1Y14_4U8_",
    "396S2308_107P5_13P3_9P7_10P2_8P3932_250a6_436a76_46X2_23X9_116X60_246E10_39E2_1J180E11Q2X21_70",
    "H122_20Y12_20T12_87G9_18I7T135_85E1_71E1_2E2_1E2_2E2_4E1_12E1_1E1_4E1G2E1_65E1_4E2_8E1_7E1_28E",
    "1_4E1_5E1_1E3_7E1_338E2H2_290E2I2_50E652Q15_5Q1_15Q1104_31X6_6Y213_7R1_17R2_7R1_2R1_5R5_62Y33_",
    "1Y112_45U3_14U2_10U4_2U320_31X17_58U5_1U464_42Y214_43a4_1a480_7X1_4X1_2X1_15X1_197P2_16P41_75R",
    "1U4_10R4_2R785_68T76_61U194_4M1_27M1_2M1_1M2_1M1_10M1_4M1_1M1_1M6_1M4_1M1_1M1_1M1_3M1_2M1_1M2_",
    "1M1_1M1_1M1_1M1_1M1_2M1_1M2_4M1_7M1_4M1_4M1_1M1_10M1_17M5_3M1_5M1_17M52_2M270_44J4_100J12_15L2",
    "_14L1P1_15L1_15L22P10_11K2P3W31K1T1L1K11L1K1L1K2L1K3L1K3L5K8L1K7L1K10L2M1U3W9L1K1L2K2L1K10L4K2",
    "L1K10L18R1W56_26L1K2L13_34K9L1R4_9K7_2L14_6S154_33L12P3Q6L1P70L1P2Q20L12P37L1P5L4P5Q12P17L7P8Q",
    "63L1P1L1P182L1P4L2P1Q62L2P4M7P5Q24L18P1R41P1R86P5L1M16L1M3L1M1L1M1L1M1L1M3L1M6L2M4L1M1L2M4L1M1",
    "2L2P2Q11L48P70L10P1Q2R2S1U2W4_1Y3X13P3_4P3R2S1T1U2W3_116L3Y4_5Y85P4T1Y6_12U4_1X15_12P4_56P8_10",
    "P6_40P8_30P2_2W10a4_2a62_12S1W3U9Q6R1S8R8S1R2S12R1U12R1S3T15R13S5T1U1W4T2W1X1T1U4T5Q13R6S11T2W",
    "6U3W2U10T6U1Q2T8U1W1X3U23S25T84U12_14T2_4U1W3Y3U2X3_3U4W2Y1a5_1a6U19W4X3Y7W4X3Y1a1Y3W3X1a7_2Y7",
    "W3X2Y1a2_1a8X1Y1a6_7X2Y7_147W1_55W37a10W1028_2B42711E7W2X32_4149K4X1Y6_222L2_5762Q14_7473S15_6",
    "22Z2466_542E1504_2B4939W5_4192Y56398_2B65534_2B65534_2B65534_2B65534_2B65534_2B65534_2B65534_2",
    "B65534_2B65534_2B65534_2B1_1E30_96E128_240G65038_131074B"])

def versions : List (String × Char) := [
  ("1.1", 'A'), ("2.0", 'B'), ("2.1", 'C'), ("3.0", 'D'), ("3.1", 'E'), ("3.2", 'F'), ("4.0",
   'G'), ("4.1", 'H'), ("5.0", 'I'), ("5.1", 'J'), ("5.2", 'K'), ("6.0", 'L'), ("6.1", 'M'),
   ("6.2", 'N'), ("6.3", 'O'), ("7.0", 'P'), ("8.0", 'Q'), ("9.0", 'R'), ("10.0", 'S'),
   ("11.0", 'T'), ("12.0", 'U'), ("12.1", 'V'), ("13.0", 'W'), ("14.0", 'X'), ("15.0", 'Y'),
   ("15.1", 'Z'), ("16.0", 'a')]

/-- The version that a name in loosely matched form stands for: `6.1` or `v61`. -/
def versionLetter? (name : String) : Option Char :=
  (versions.find? fun v =>
    name = v.1 || name = "v" ++ String.ofList (v.1.toList.filter (· ≠ '.'))).map (·.2)

/-- The characters that were assigned in the version with a letter or before it. -/
def assignedBy (letter : Char) : CharSet :=
  let upTo := ((versions.map (·.2)).takeWhile (· ≠ letter)) ++ [letter]
  ages.select (fun label => match label.toList with
    | [l] => upTo.contains l
    | _ => false)

end Docket.Unicode
